import Polyview.Proofs.Backend.StaticStrings
import Polyview.Proofs.Text.Margin
import Polyview.Proofs.Unit.LiteralOptions

/-! # Styles from literal to literal

Styles start as a literal in the source and end as a template literal in the files of two targets. There they are escaped
once, so the literal in the file stands for the styles of the component, on one line, unless they hold a carriage return
(`emits_escapeTemplate`). The styles of the component are those that the literal in the source stands for exactly if it
is plain. -/

namespace Polyview

open List Script Text

/-! ### Literals in files -/

/-- Reads a template literal without substitutions behind its first backtick: the text that it stands for, and what
follows the literal. -/
def readTemplate? (cs : List Char) : Option (List Char × List Char) :=
  match splitTemplate? false cs with
  | some (part, true, rest) => (cooked? part).map fun text => (text, rest)
  | _ => none

theorem readTemplate?_escapeTemplateChars (text rest : List Char) :
    readTemplate? (escapeTemplateChars text ++ '`' :: rest) = some (foldBreaks text, rest) := by
  rw [readTemplate?, splitTemplate?_escapeTemplateChars]
  simp [cooked?_escapeTemplateChars]

/-- A file holds a template literal behind some words, and it stands for a text, unless this holds a carriage return. -/
def Emits (lead css file : String) : Prop :=
  ∃ literal value, lead.toList ++ (literal ++ "`;".toList) <:+: file.toList ∧
    (∀ more, readTemplate? (literal ++ '`' :: more) = some (value, more)) ∧
    (value = css.toList ↔ '\r' ∉ css.toList)

theorem emits_escapeTemplate {lead css file : String}
    (h : (lead ++ (escapeTemplate css ++ "`;")).toList <:+: file.toList) : Emits lead css file := by
  refine ⟨escapeTemplateChars css.toList, foldBreaks css.toList, ?_, readTemplate?_escapeTemplateChars _,
    foldBreaks_eq_self⟩
  simpa [escapeTemplate] using h

/-! ### Styles on one line -/

theorem mem_of_mem_trimChars {c : Char} {cs : List Char} (h : c ∈ trimChars cs) : c ∈ cs :=
  (dropWhile_sublist _).subset ((trimEndChars_isPrefix _).subset h)

theorem mem_joinChars {c : Char} {sep : List Char} {lines : List (List Char)} (h : c ∈ joinChars sep lines) :
    c ∈ sep ∨ ∃ line ∈ lines, c ∈ line := by
  unfold joinChars at h
  induction lines with
  | nil => cases h
  | cons line lines ih =>
    cases lines with
    | nil => exact .inr ⟨line, .head _, by simpa [List.intercalate] using h⟩
    | cons next lines =>
      rw [intercalate_cons_cons, append_assoc, mem_append, mem_append] at h
      rcases h with h | h | h
      · exact .inr ⟨line, .head _, h⟩
      · exact .inl h
      · exact (ih h).imp_right fun ⟨other, ho, hc⟩ => ⟨other, .tail _ ho, hc⟩

theorem newline_notMem_normalizeStyles (styles : String) : '\n' ∉ (normalizeStyles styles).toList := by
  intro h
  rw [normalizeStyles, String.toList_ofList] at h
  rcases mem_joinChars h with h | ⟨line, hl, hc⟩
  · cases h with
    | tail _ h => cases h
  · obtain ⟨line, hm, rfl⟩ := mem_map.mp (mem_of_mem_filter hl)
    exact newline_notMem_of_mem_linesOfChars hm (mem_of_mem_trimChars hc)

theorem newline_notMem_escapeTemplate {css : String} (h : '\n' ∉ css.toList) : '\n' ∉ (escapeTemplate css).toList := by
  rw [escapeTemplate, String.toList_ofList]
  generalize css.toList = cs at h ⊢
  induction cs with
  | nil => exact h
  | cons c cs ih =>
    rw [mem_cons, not_or] at h
    rw [escapeTemplateChars_cons]
    split <;> simp [h.1, ih h.2]

namespace React

variable {c : Component} {d : Draft}

/-- Styles in the draft are those of the component, on one line and confined to its scope. -/
theorem styles_of_run (hr : hooks.run c = .ok d) (h : d.styles ≠ "") :
    d.styles = Css.scopeStyles (scopeOf c) (normalizeStyles c.styles) := by
  by_cases hst : normalizeStyles c.styles = ""
  · obtain ⟨w, hd⟩ := exists_draft_of_run rfl hr
    obtain ⟨before, middle, after, artifact, hs, -⟩ := styled_of_draft rfl rfl hd
    rw [hst] at hs
    exact absurd (Except.ok.inj (congrArg Prod.fst hs)).symm h
  · exact (exists_markup hr hst).1

theorem emits_styles (h : d.styles ≠ "") : Emits "const styles = `" d.styles (file d) := by
  refine emits_escapeTemplate ?_
  unfold file
  extract_lets styles function
  refine isInfix_fileOf (mem_append_left _ (mem_append_right _ ?_))
  have he : d.styles.isEmpty = false := by simpa [String.isEmpty_iff] using h
  simp [styles, he, String.append_assoc]

end React

namespace Lit

variable {c : Component} {d : Draft} {text : String}

/-- Styles in the draft are those of the component, on one line. -/
theorem styles_of_run (hr : hooks.run c = .ok d) : d.styles = normalizeStyles c.styles := by
  obtain ⟨w, hd⟩ := exists_draft_of_run rfl hr
  obtain ⟨before, middle, after, artifact, hs, -⟩ := styled_of_draft rfl rfl hd
  unfold stylesHook at hs
  split at hs
  · obtain ⟨_, _, -, hs⟩ := run_bind_eq_ok hs
    exact (Except.ok.inj (congrArg Prod.fst hs)).symm
  · exact (Except.ok.inj (congrArg Prod.fst hs)).symm

theorem emits_styles (hr : hooks.run c = .ok d) (hf : file d = .ok text) (h : d.styles ≠ "") :
    Emits "static styles = css`" d.styles text := by
  refine emits_escapeTemplate ?_
  have he : d.styles.isEmpty = false := by simpa [String.isEmpty_iff] using h
  have hm : "static styles = css`" ++ (escapeTemplate d.styles ++ "`;") ∈ members d := by
    unfold members
    simp [he, String.append_assoc]
  have hl : OneLine ("static styles = css`" ++ (escapeTemplate d.styles ++ "`;")).toList := by
    have hs : OneLine "`;".toList := ⟨by decide, ⟨';', by decide, by decide⟩, by decide⟩
    rw [← String.append_assoc, String.toList_append]
    refine hs.append ?_
    rw [String.toList_append, mem_append, not_or]
    refine ⟨by decide, newline_notMem_escapeTemplate ?_⟩
    rw [styles_of_run hr]
    exact newline_notMem_normalizeStyles _
  exact isInfix_file_of_mem hf hl hm (infix_refl _)

end Lit

/-! ### From literal to literal -/

variable {source : List Char} {decorator : Node} {properties : List Node}

/-- An option is the text that its literal stands for exactly if the literal is plain. -/
theorem takenText_eq_iff {node? : Option Node} (h : ∀ node ∈ node?, (literalValue? source node).isSome = true) :
    node?.map (takenText source) = node?.bind (literalValue? source) ↔ ∀ node ∈ node?, PlainLiteral source node := by
  cases node? with
  | none => simp
  | some node => simpa [eq_comm] using plainLiteral_iff (h node rfl)

theorem isSome_literalValue? {key : String} (hk : key = "selector" ∨ key = "styles")
    (h : ∀ property ∈ properties, LiteralOption source property) {node : Node}
    (hn : node ∈ lastValue? source key properties) : (literalValue? source node).isSome := by
  obtain ⟨property, hm, hv⟩ := exists_of_findSome?_eq_some hn
  obtain ⟨found, value, he, hl⟩ := h property (mem_reverse.mp hm)
  rw [valueAt?, he] at hv
  dsimp only at hv
  split at hv
  · next heq =>
    cases hv
    exact hl (heq ▸ hk)
  · cases hv

/-- **Options denote what their literals stand for** exactly if the literals are plain. If the options of a component are
literals, its selector and its styles are the texts that the last of them stand for exactly if these are strings, or
template literals without escapes and carriage returns. What styles there are reaches the React and the Lit file on one
line, in a template literal that stands for them if they hold no carriage return. -/
theorem literal_options_denote_iff (hobject : optionsOf? decorator = some properties)
    (h : ∀ property ∈ properties, LiteralOption source property) :
    ∃ options, componentOptions source decorator = .ok options ∧
      (options.selector = (lastValue? source "selector" properties).bind (literalValue? source) ↔
        ∀ node ∈ lastValue? source "selector" properties, PlainLiteral source node) ∧
      (options.styles = ((lastValue? source "styles" properties).bind (literalValue? source)).getD "" ↔
        ∀ node ∈ lastValue? source "styles" properties, PlainLiteral source node) ∧
      ∀ c d, c.styles = options.styles → d.styles ≠ "" → (React.hooks.run c = .ok d →
          d.styles = Css.scopeStyles (React.scopeOf c) (normalizeStyles options.styles) ∧
            Emits "const styles = `" d.styles (React.file d)) ∧
        (Lit.hooks.run c = .ok d → d.styles = normalizeStyles options.styles ∧
            ∀ text, Lit.file d = .ok text → Emits "static styles = css`" d.styles text) := by
  refine ⟨_, componentOptions_eq hobject h, takenText_eq_iff fun _ => isSome_literalValue? (.inl rfl) h, ?_, ?_⟩
  · have hl : ∀ node ∈ lastValue? source "styles" properties, (literalValue? source node).isSome = true :=
      fun _ => isSome_literalValue? (.inr rfl) h
    rw [← takenText_eq_iff hl]
    cases hv : lastValue? source "styles" properties with
    | none => simp
    | some node =>
      obtain ⟨value, hv⟩ := Option.isSome_iff_exists.mp (hl node hv)
      simp [hv]
  · intro c d hs hn
    rw [← hs]
    exact ⟨fun hr => ⟨React.styles_of_run hr hn, React.emits_styles hn⟩,
      fun hr => ⟨Lit.styles_of_run hr, fun text hf => Lit.emits_styles hr hf hn⟩⟩

/-! ### Two spellings of styles -/

/-- A note whose styles are the given literal. -/
def noteWith (literal : String) : List Char :=
  ("@Component(\x7b selector: 'x-note', styles: " ++ literal ++ " \x7d) class Note \x7b \x7d").toList

/-- A note with a selector and styles. -/
def styledNote : Component := { React.listNote with selector := some "x-note" }

theorem exists_options (value taken : String)
    (h : ((parse? true source).any fun tree => tree.root.nodes.any fun node => (optionsOf? node).any fun properties =>
      decide (∀ property ∈ properties, LiteralOption source property) &&
        (lastValue? source "styles" properties).any fun literal =>
          literalValue? source literal == some value && takenText source literal == taken) = true) :
    ∃ tree decorator properties literal, parse? true source = some tree ∧ decorator ∈ tree.root.nodes ∧
      optionsOf? decorator = some properties ∧ (∀ property ∈ properties, LiteralOption source property) ∧
      lastValue? source "styles" properties = some literal ∧ literalValue? source literal = some value ∧
      takenText source literal = taken := by
  obtain ⟨tree, hp, h⟩ := Option.any_eq_true _ _ |>.mp h
  obtain ⟨decorator, hm, h⟩ := any_eq_true.mp h
  obtain ⟨properties, ho, h⟩ := Option.any_eq_true _ _ |>.mp h
  obtain ⟨hli, h⟩ := Bool.and_eq_true_iff.mp h
  obtain ⟨literal, hl, h⟩ := Option.any_eq_true _ _ |>.mp h
  obtain ⟨hv, ht⟩ := Bool.and_eq_true_iff.mp h
  exact ⟨tree, decorator, properties, literal, hp, hm, ho, of_decide_eq_true hli, hl,
    beq_iff_eq.mp hv, beq_iff_eq.mp ht⟩

/-- Styles without escapes are taken as they are, and reach both files. -/
theorem plain_styles_reach_files : ∃ tree decorator options,
    parse? true (noteWith "`p \x7b color: red; \x7d`") = some tree ∧ decorator ∈ tree.root.nodes ∧
    componentOptions (noteWith "`p \x7b color: red; \x7d`") decorator = .ok options ∧
    options.styles = "p \x7b color: red; \x7d" ∧
    (∃ d, React.hooks.run styledNote = .ok d ∧ d.styles ≠ "" ∧ Emits "const styles = `" d.styles (React.file d)) ∧
    ∃ d text, Lit.hooks.run styledNote = .ok d ∧ Lit.file d = .ok text ∧ d.styles ≠ "" ∧
      d.styles = normalizeStyles "p \x7b color: red; \x7d" ∧ Emits "static styles = css`" d.styles text := by
  obtain ⟨tree, decorator, properties, literal, hp, hm, hob, hl, hla, hv, hta⟩ :=
    exists_options "p \x7b color: red; \x7d" "p \x7b color: red; \x7d"
      (show ((parse? true (noteWith "`p \x7b color: red; \x7d`")).any _) = true by decide +kernel)
  obtain ⟨options, ho, -, hs, hfi⟩ := literal_options_denote_iff hob hl
  have hpl : PlainLiteral (noteWith "`p \x7b color: red; \x7d`") literal :=
    (plainLiteral_iff (by rw [hv]; rfl)).mp (by rw [hv, hta])
  have ht : options.styles = "p \x7b color: red; \x7d" := by
    rw [hs.mpr (by rintro node hn; cases hla.symm.trans hn; exact hpl), hla, Option.bind_some, hv]
    rfl
  obtain ⟨d, hru, hne⟩ := exists_of_any (p := fun d => d.styles != "")
    (show (React.hooks.run styledNote).toOption.any _ = true by decide +kernel)
  obtain ⟨d', hr', hf⟩ := exists_of_any (p := fun d => d.styles != "" && (Lit.file d).isOk)
    (show (Lit.hooks.run styledNote).toOption.any _ = true by decide +kernel)
  obtain ⟨hn', hf⟩ := Bool.and_eq_true_iff.mp hf
  cases ht' : Lit.file d' with
  | error error =>
    rw [ht'] at hf
    cases hf
  | ok text =>
    obtain ⟨-, hr⟩ := (hfi styledNote d ht.symm (bne_iff_ne.mp hne)).1 hru
    obtain ⟨hli, hlt⟩ := (hfi styledNote d' ht.symm (bne_iff_ne.mp hn')).2 hr'
    exact ⟨tree, decorator, options, hp, hm, ho, ht, ⟨d, hru, bne_iff_ne.mp hne, hr⟩,
      d', text, hr', ht', bne_iff_ne.mp hn', ht ▸ hli, hlt text ht'⟩

/-- **An escape in a template literal** is taken as it is written: the styles are not what the literal stands for. -/
theorem escape_taken_as_written : ∃ tree decorator properties literal options,
    parse? true (noteWith "`\\\\2014`") = some tree ∧ decorator ∈ tree.root.nodes ∧
    optionsOf? decorator = some properties ∧
    lastValue? (noteWith "`\\\\2014`") "styles" properties = some literal ∧
    literalValue? (noteWith "`\\\\2014`") literal = some "\\2014" ∧
    componentOptions (noteWith "`\\\\2014`") decorator = .ok options ∧ options.styles = "\\\\2014" := by
  obtain ⟨tree, decorator, properties, literal, hp, hm, ho, hl, hla, hv, ht⟩ :=
    exists_options "\\2014" "\\\\2014"
      (show ((parse? true (noteWith "`\\\\2014`")).any _) = true by decide +kernel)
  refine ⟨tree, decorator, properties, literal, _, hp, hm, ho, hla, hv, componentOptions_eq ho hl, ?_⟩
  simp [hla, ht]

end Polyview
