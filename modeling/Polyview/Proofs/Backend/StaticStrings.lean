import Polyview.Proofs.Backend.Dialect
import Polyview.Proofs.Backend.Marking
import Polyview.Proofs.Text.Indentation

/-! # Static strings in files

The static strings of a template are texts between tags, values of attributes, fallbacks and names of slots. Texts are
written as they are, or escaped for a template literal; they come from markup, so they hold no brackets and are read
back as what they are. The other three may hold anything. `Dialect.Carries` says for each of them where it is written
and what it is read as there, and for which strings this is what was meant. -/

namespace Polyview

open List Script Text

variable {piece : List Char} {word : String}

/-- A way to write and to read static strings. -/
structure Dialect where
  frame : Frame
  /-- Whether static classes beside a class map are written word by word. -/
  merges : Bool
  attributeName : (tag name : String) → String
  /-- What precedes the name of a slot. -/
  slotLead : String
  /-- What a slot of the given name is to be read as. -/
  slotLiteral : String → Literal
  readText : List Char → Option Literal
  readValue : List Char → Option Literal
  readSlot : List Char → Option Literal
  /-- Texts that are read as they are. -/
  SafeText : String → Prop
  /-- Values that are read as what they stand for. -/
  SafeValue : Entities → String → Prop
  /-- Names of slots that are read as such. -/
  SafeSlot : String → Prop

/-- Texts one behind the other, as they are written. -/
def Dialect.written (D : Dialect) (texts : List String) : List Char := (String.join (texts.map D.frame.text)).toList

/-- **What becomes of the static strings** of a template in its code and in the file that the code is part of. What is
written for a string is followed by a tag, a brace or a quote, so that it is read alike whatever follows that. Strings
of one line stand in the file as they do in the code.
* Texts are read as they are, if there are no carriage returns in them; several of them in a row are read as one.
* A static attribute is read as a value. It stands for the same text exactly if it is safe.
* The static classes beside a class map are written word by word, and are read as the words they are.
* A static fallback is read as text exactly if it is safe.
* The name of a slot is read as such exactly if it is safe. -/
structure Dialect.Carries (D : Dialect) (e : Entities) (template : Template) (code file : List Char) : Prop where
  text {value : String} : template.Reaches (.text value) → ∃ others rest,
    (∀ other ∈ others, template.Reaches (.text other)) ∧ D.written (value :: others) ++ rest <:+: code ∧
      (rest = [] ∧ D.written (value :: others) <:+ code ∨ D.written (value :: others) ++ rest <:+: file) ∧
      ((∀ text ∈ value :: others, '\r' ∉ text.toList) → ∀ more, (rest = [] → more = []) →
        D.readText (D.written (value :: others) ++ rest ++ more) = some ⟨(String.join (value :: others)).toList, true⟩)
  value {node : Template} {tag name value : String} : template.Reaches node → node.IsPlain → node.tag? = some tag →
    Attribute.mk name (.static value) ∈ writtenAttributes D.merges node.attributes → ∃ piece literal,
      (D.attributeName tag name ++ "=").toList ++ piece <:+: code ∧ ('\n' ∉ value.toList → piece <:+: file) ∧
      (∀ more, D.readValue (piece ++ more) = some literal) ∧
      (literal.denotes e = e.decode value.toList ↔ D.SafeValue e value)
  word {node : Template} {tag name value word : String} : D.merges = true → template.Reaches node → node.IsPlain →
    node.tag? = some tag → node.attributes.any isClassMap = true → Attribute.mk name (.static value) ∈ node.attributes →
    isClassName name = true → word ∈ words value → ∃ piece, piece <:+: code ∧ piece <:+: file ∧
      ∀ more, readWord (piece ++ more) = some ⟨word.toList, false⟩
  fallback {node : Template} {value : String} : template.Reaches node → node.tag? = some "Show" →
    node.attribute? "fallback" = some (.static value) → ∃ piece,
      (D.frame.text value).toList <+: piece ∧ piece <:+: code ∧ ('\n' ∉ value.toList → piece <:+: file) ∧
      ∀ more, (D.readText (piece ++ more) = some ⟨value.toList, true⟩ ↔ D.SafeText value)
  slot {node : Template} {name : String} : template.Reaches node → node.tag? = some "slot" →
    node.attribute? "name" = some (.static name) → ∃ piece,
      D.slotLead.toList ++ piece <:+: code ∧ ('\n' ∉ (D.slotLiteral name).chars → piece <:+: file) ∧
      ∀ more, (D.readSlot (piece ++ more) = some (D.slotLiteral name) ↔ D.SafeSlot name)

/-! ### Writing and reading back -/

/-- **A renderer fits a dialect:** what it writes for static strings is read back as the dialect says. -/
structure Dialect.Fits (D : Dialect) (e : Entities) (r : Renderer Workspace) : Prop where
  writes : r.Writes D.frame
  merges : r.mergesStaticClass = D.merges
  signs : ∀ sign ∈ D.frame.signs, OneLine sign.toList
  lines {value : String} : '\n' ∉ value.toList → '\n' ∉ (D.frame.text value).toList
  texts {texts : List String} {rest : List Char} : (∀ text ∈ texts, IsTextBetween text ∧ '\r' ∉ text.toList) →
    rest = [] ∨ D.frame.Opens rest →
    D.readText (D.written texts ++ rest) = some ⟨(String.join texts).toList, true⟩
  fallback {value : String} {rest : List Char} : D.frame.Opens rest →
    (D.readText ((D.frame.text value).toList ++ rest) = some ⟨value.toList, true⟩ ↔ D.SafeText value)
  value {tag name value out : String} : Yields (r.attr tag name (.static value)) out → ∃ piece literal,
    out.toList = (D.attributeName tag name ++ "=").toList ++ piece ∧ ('\n' ∉ value.toList → OneLine piece) ∧
      (∀ more, D.readValue (piece ++ more) = some literal) ∧
      (literal.denotes e = e.decode value.toList ↔ D.SafeValue e value)
  word {tag name word code out : String} {entries : List MapEntry} : D.merges = true → '\n' ∉ word.toList →
    Yields (r.classMap tag name entries code) out → ⟨word, "true"⟩ ∈ entries → ∃ piece, piece <:+: out.toList ∧
      OneLine piece ∧ ∀ more, readWord (piece ++ more) = some ⟨word.toList, false⟩
  slot {parts : SlotParts} {name out : String} : Yields (r.slot parts) out → parts.name = some name →
    parts.prop = camelCase name → ∃ piece, D.slotLead.toList ++ piece <:+: out.toList ∧
      ('\n' ∉ (D.slotLiteral name).chars → OneLine piece) ∧
      ∀ more, (D.readSlot (piece ++ more) = some (D.slotLiteral name) ↔ D.SafeSlot name)

/-- Behind a node there are texts, and then nothing or markup. -/
theorem Frame.Behind.exists_texts {f : Frame} {texts : String → Prop} {rest : List Char} (h : f.Behind texts rest) :
    ∃ (others : List String) (tail : List Char), (∀ other ∈ others, texts other) ∧
      rest = (String.join (others.map f.text)).toList ++ tail ∧ (tail = [] ∨ f.Opens tail) := by
  induction h with
  | nil => exact ⟨[], [], by simp, rfl, .inl rfl⟩
  | @markup rest h => exact ⟨[], rest, by simp, rfl, .inr h⟩
  | @text value rest h _ ih =>
    obtain ⟨others, tail, ho, rfl, ht⟩ := ih
    refine ⟨value :: others, tail, forall_mem_cons.mpr ⟨h, ho⟩, ?_, ht⟩
    simp [String.toList_join]

theorem isBlank_of_mem_words {text : String} {c : Char} (h : word ∈ words text) (hc : c ∈ word.toList) :
    isBlank c = false := by
  have hf {run cs : List Char} (hr : ∀ d ∈ run, isBlank d = false) :
      ∀ part ∈ wordsFrom run cs, ∀ d ∈ part, isBlank d = false := by
    induction cs generalizing run with
    | nil =>
      intro part hp
      rw [wordsFrom] at hp
      split at hp
      · cases hp
      · obtain rfl := mem_singleton.mp hp
        exact fun d hd => hr d (mem_reverse.mp hd)
    | cons d cs ih =>
      intro part hp
      rw [wordsFrom] at hp
      split at hp
      · split at hp
        · exact ih (by simp) part hp
        · rcases mem_cons.mp hp with rfl | hp
          · exact fun d hd => hr d (mem_reverse.mp hd)
          · exact ih (by simp) part hp
      · next hd => exact ih (forall_mem_cons.mpr ⟨by simpa using hd, hr⟩) part hp
  obtain ⟨part, hp, rfl⟩ := mem_map.mp h
  rw [String.toList_ofList] at hc
  exact hf (by simp) part hp c hc

namespace Dialect

variable {D : Dialect} {e : Entities} {r : Renderer Workspace} {root node : Template} {markup : String}
  {code file : List Char}

/-- The text of an attribute of an element that is reached stands in the markup. -/
theorem exists_attributeText {tag : String} {a : Attribute} (hr : r.Writes D.frame)
    (h : Yields (renderTemplate r root) markup) (hn : root.Reaches node) (hpl : node.IsPlain)
    (hta : node.tag? = some tag) (ha : a ∈ writtenAttributes r.mergesStaticClass node.attributes) :
    ∃ text, text.toList <:+: markup.toList ∧ Yields (renderAttribute r (renderTemplate r) tag
      (mergedEntries r.mergesStaticClass node.attributes) a) text := by
  obtain ⟨out, ho, hw⟩ := hn.isInfix hr h
  obtain ⟨shape, hs, hy⟩ := ho.exists_shape
  rw [shapeOf_plain hpl] at hs
  cases node with
  | element _ attributes children =>
    cases hta
    cases hs
    obtain ⟨parts, inner, hp, -, hy⟩ := yields_element hy
    obtain ⟨text, ht, ha⟩ := exists_of_mem_left hp ha
    exact ⟨text, ((hr.element hy).2.2 text ht).trans hw, ha⟩
  | selfClosing _ attributes =>
    cases hta
    cases hs
    obtain ⟨parts, hp, hy⟩ := yields_selfClosing hy
    obtain ⟨text, ht, ha⟩ := exists_of_mem_left hp ha
    exact ⟨text, ((hr.selfClosing hy).2 text ht).trans hw, ha⟩
  | _ => cases hta

theorem exists_texts {value : String} (hr : r.Writes D.frame) (h : Yields (renderTemplate r root) markup)
    (hlo : root.Lowered) (hm : root.IsMarkup) (hn : root.Reaches (.text value))
    {before after : List Char} (hco : code = before ++ markup.toList ++ after)
    (ha : D.frame.tagged ∨ after = [] ∨ D.frame.Opens after) :
    ∃ others lead tail, (∀ other ∈ others, root.Reaches (.text other)) ∧
      code = lead ++ (D.written (value :: others) ++ tail) ∧ (tail = [] ∨ D.frame.Opens tail) := by
  have hpl : D.frame.Placed (fun text => root.Reaches (.text text)) (D.frame.tagged = true ∧ root.IsMarkup)
      (D.frame.text value).toList markup.toList := by
    refine hn.placed hr (fun _ => id) (fun inner hi => (hlo.of_reaches hi).hasMarkupValues)
      (fun part hp => ?_) h
    obtain ⟨shape, hsh, hy⟩ := hp.exists_shape
    cases hsh
    obtain rfl := hr.text hy
    exact ⟨[], [], by simp, Frame.leads_nil, fun hc => absurd rfl (hc.2 value)⟩
  obtain ⟨lead, rest, heq, hl, hs⟩ := hpl
  have hb : D.frame.Behind (fun text => root.Reaches (.text text)) (rest ++ after) := by
    rcases ha with ht | rfl | ho
    · exact hs ⟨ht, hm⟩ after
    · exact hl _ .nil
    · exact hl _ (.markup ho)
  obtain ⟨others, tail, hot, hre, hta⟩ := hb.exists_texts
  refine ⟨others, before ++ lead, tail, hot, ?_, hta⟩
  have hw : D.written (value :: others) ++ tail = (D.frame.text value).toList ++ (rest ++ after) := by
    rw [hre, written, map_cons]
    simp [String.toList_join]
  rw [hco, heq, hw]
  simp

/-- **A renderer that fits carries static strings.** -/
theorem Fits.carries (hr : D.Fits e r) (h : Yields (renderTemplate r root) markup) (hlo : root.Lowered)
    (hmu : root.IsMarkup) {before after : List Char} (hc : code = before ++ markup.toList ++ after)
    (haf : D.frame.tagged ∨ after = [] ∨ D.frame.Opens after)
    (hf : ∀ piece, OneLine piece → piece <:+: code → piece <:+: file) : D.Carries e root code file := by
  have hw : markup.toList <:+: code := ⟨before, after, hc.symm⟩
  refine ⟨fun {value} hn => ?_, fun {node tag name value} hn hpl hta ha => ?_,
    fun {node tag name value word} hmr hn hpl hta hm ha hcl hwo => ?_,
    fun {node value} hn hta hfb => ?_, fun {node name} hn hta hna => ?_⟩
  · obtain ⟨others, lead, tail, ho, heq, hti⟩ := exists_texts hr.writes h hlo hmu hn hc haf
    have hb : ∀ text ∈ value :: others, IsTextBetween text := by
      intro text ht
      have hrc : root.Reaches (.text text) := (mem_cons.mp ht).elim (fun heq => heq ▸ hn) (ho text)
      cases hlo.of_reaches hrc with
      | text between => exact between
    have hli : '\n' ∉ D.written (value :: others) := by
      rw [written, String.toList_join]
      intro hme
      obtain ⟨part, hpa, hme⟩ := mem_flatMap.mp hme
      obtain ⟨text, ht, rfl⟩ := mem_map.mp hpa
      exact hr.lines (hb text ht).oneLine.1 hme
    rcases hti with rfl | ⟨sign, hsi, more, rfl⟩
    · refine ⟨others, [], ho, ⟨lead, [], by simpa using heq.symm⟩, .inl ⟨rfl, lead, by simpa using heq.symm⟩, ?_⟩
      intro hrt more hmo
      rw [hmo rfl, append_nil]
      exact hr.texts (fun text ht => ⟨hb text ht, hrt text ht⟩) (.inl rfl)
    · have hp : D.written (value :: others) ++ sign.toList <:+: code := ⟨lead, more, by rw [heq]; simp⟩
      refine ⟨others, sign.toList, ho, hp, .inr (hf _ ((hr.signs sign hsi).append hli) hp), ?_⟩
      intro hrt more' _
      rw [append_assoc]
      exact hr.texts (fun text ht => ⟨hb text ht, hrt text ht⟩)
        (.inr ⟨sign, hsi, prefix_append _ _⟩)
  · obtain ⟨text, hst, ht⟩ := exists_attributeText hr.writes h hn hpl hta (hr.merges ▸ ha)
    obtain ⟨piece, literal, heq, hl, hre, hsf⟩ := hr.value ht
    have hp := hst.trans hw
    rw [heq] at hp
    refine ⟨piece, literal, hp, fun hbr => hf _ (hl hbr) (List.IsInfix.trans ?_ hp), hre, hsf⟩
    exact (suffix_append _ _).isInfix
  · obtain ⟨map, hmm, hm⟩ := any_eq_true.mp hm
    unfold isClassMap at hm
    split at hm
    · next mapName entries mapCode hs =>
      have hsa : staticClass? map = none := by
        unfold staticClass?
        split
        · cases hs
        · rfl
      obtain ⟨text, hst, ht⟩ := exists_attributeText hr.writes h hn hpl hta
        (mem_writtenAttributes hmm hsa)
      unfold renderAttribute at ht
      rw [hs] at ht
      obtain ⟨rendered, -, ht⟩ := ht.exists_of_bind
      obtain ⟨_, -, ht⟩ := ht.exists_of_bind
      have he : ⟨word, "true"⟩ ∈ mergedEntries r.mergesStaticClass node.attributes := by
        rw [mergedEntries, hr.merges, hmr, any_eq_true.mpr ⟨map, hmm, by rw [isClassMap, hs]⟩]
        refine mem_flatMap.mpr ⟨value, mem_filterMap.mpr ⟨_, ha, if_pos hcl⟩, ?_⟩
        exact mem_map.mpr ⟨word, hwo, rfl⟩
      have hl : '\n' ∉ word.toList := fun hme => absurd (isBlank_of_mem_words hwo hme) (by decide)
      obtain ⟨piece, hp, hon, hre⟩ := hr.word hmr hl ht (mem_append_left _ he)
      have hp := (hp.trans hst).trans hw
      exact ⟨piece, hp, hf _ hon hp, hre⟩
    · cases hm
  · obtain ⟨out, hou, hst⟩ := hn.isInfix hr.writes h
    obtain ⟨shape, hs, hy⟩ := hou.exists_shape
    rw [shapeOf_show hta, showShape] at hs
    split at hs
    · cases hs
    · cases hs
      obtain ⟨parts, -, hh, hy⟩ := yields_conditional hy
      rw [hfb] at hh
      obtain ⟨state, later, hru⟩ := hh
      obtain ⟨text, hru, hso⟩ := run_map_eq_ok hru
      obtain rfl := hr.writes.text ⟨_, _, hru⟩
      obtain ⟨lead, rest, heq, sign, hsi, more, rfl⟩ := (hr.writes.conditional hy).2.2 _ hso
      have hp : (D.frame.text value).toList ++ sign.toList <:+: code :=
        List.IsInfix.trans ⟨lead, more, by rw [heq]; simp⟩ (hst.trans hw)
      refine ⟨_, prefix_append _ _, hp, fun hbr => ?_, fun more' => ?_⟩
      · exact hf _ ((hr.signs sign hsi).append (hr.lines hbr)) hp
      · rw [append_assoc]
        exact hr.fallback ⟨sign, hsi, prefix_append _ _⟩
  · obtain ⟨out, hou, hst⟩ := hn.isInfix hr.writes h
    obtain ⟨shape, hs, hy⟩ := hou.exists_shape
    rw [shapeOf_slot hta, slotShape, hna] at hs
    cases hs
    obtain ⟨parts, -, hpt, hpr, hy⟩ := yields_slot hy
    obtain ⟨piece, hp, hl, hre⟩ := hr.slot hy hpt (hpr name rfl)
    have hp := (hp.trans hst).trans hw
    refine ⟨piece, hp, fun hbr => hf _ (hl hbr) (List.IsInfix.trans ?_ hp), hre⟩
    exact (suffix_append _ _).isInfix

end Dialect

/-! ### React -/

theorem break_not_mem_quote (text : String) : '\n' ∉ (quote text).toList := by
  have hc (c : Char) : '\n' ∉ quoteChar c := by
    unfold quoteChar
    split
    · decide
    · decide
    · decide
    · decide
    · decide
    · next hn _ _ =>
      have hd : ∀ n < 16, '\n' ≠ hexDigit n := by decide
      split
      · decide
      · split
        · decide
        · split
          · next hlt =>
            have hh := hd (c.toNat / 16) (by omega)
            have hl := hd (c.toNat % 16) (Nat.mod_lt _ (by decide))
            simp [hh, hl]
          · simpa using fun heq => hn heq.symm
  simp [quote, hc]

theorem oneLine_singleton {sign : Char} (hb : isBlank sign = false) : OneLine [sign] where
  noBreak hm := by
    rw [← mem_singleton.mp hm] at hb
    cases hb
  ink := ⟨sign, .head _, hb⟩
  noReturn heq := by
    cases heq
    cases hb

/-- A text between two signs. -/
theorem oneLine_between {first last : Char} {part : List Char} (hf : isBlank first = false)
    (hl : isBlank last = false) (hp : '\n' ∉ part) : OneLine (first :: (part ++ [last])) := by
  rw [← cons_append]
  refine (oneLine_singleton hl).append fun hm => ?_
  rcases mem_cons.mp hm with rfl | hm
  · cases hf
  · exact hp hm

namespace React

/-- Static strings in React files. -/
def dialect : Dialect where
  frame := frame
  merges := true
  attributeName := attributeName
  slotLead := "\x7b"
  slotLiteral name := ⟨(camelCase name).toList, false⟩
  readText := readText
  readValue := readValue
  readSlot := readSlot
  SafeText value := (∀ c ∈ value.toList, isBracket c = false) ∧ cleanJsxChars value.toList = value.toList
  SafeValue e value := '"' ∉ value.toList ∨ e.decode value.toList = value.toList
  SafeSlot name := IsVariable (camelCase name).toList

variable {c : Component} {e : Entities}

theorem written_dialect (texts : List String) : dialect.written texts = (String.join texts).toList := by
  rw [Dialect.written, show dialect.frame.text = id from rfl, map_id]

theorem oneLine_of_mem_signs {sign : String} (h : sign ∈ frame.signs) : OneLine sign.toList := by
  rcases mem_pair.mp h with rfl | rfl
  · exact oneLine_singleton (by decide)
  · exact oneLine_singleton (by decide)

theorem reads_static (e : Entities) (tag name value : String) : ∃ piece literal,
    (renderAttr tag name (.static value)).toList = (attributeName tag name ++ "=").toList ++ piece ∧
      ('\n' ∉ value.toList → OneLine piece) ∧ (∀ more, readValue (piece ++ more) = some literal) ∧
      (literal.denotes e = e.decode value.toList ↔ '"' ∉ value.toList ∨ e.decode value.toList = value.toList) := by
  rw [renderAttr]
  split
  · next hq =>
    have hm : '"' ∈ value.toList := by simpa using hq
    refine ⟨'\x7b' :: ((quote value).toList ++ ['\x7d']), ⟨value.toList, false⟩, ?_, fun _ => ?_, fun more => ?_, ?_⟩
    · simp [bracedAttribute, braces]
    · exact oneLine_between (by decide) (by decide) (break_not_mem_quote value)
    · rw [cons_append, append_assoc]
      exact readValue_quote value more
    · rw [Literal.denotes, if_neg (by simp)]
      simp [hm, eq_comm]
  · next hq =>
    have hm : '"' ∉ value.toList := by simpa using hq
    refine ⟨'"' :: (value.toList ++ ['"']), ⟨value.toList, true⟩, ?_, fun hb => ?_, fun more => ?_, ?_⟩
    · simp
    · exact oneLine_between (by decide) (by decide) hb
    · rw [cons_append, append_assoc]
      exact readValue_plain hm more
    · exact iff_of_true rfl (.inl hm)

/-- What the words of classes beside a class map are read as. -/
theorem reads_word {entries : List MapEntry} (tag name : String) (h : ⟨word, "true"⟩ ∈ entries) :
    ∃ piece, piece <:+: (bracedAttribute (attributeName tag name)
        ("[" ++ join ", " (entries.map classEntry) ++ "].filter(Boolean).join(\" \")")).toList ∧
      OneLine piece ∧ ∀ more, readWord (piece ++ more) = some ⟨word.toList, false⟩ := by
  have hq : (quote word).toList = '"' :: (word.toList.flatMap quoteChar ++ ['"']) := by simp [quote]
  refine ⟨(quote word).toList, ?_, ?_, readWord_quote word⟩
  · have hw : (quote word).toList <:+: (join ", " (entries.map classEntry)).toList :=
      isInfix_join (mem_map.mpr ⟨_, h, rfl⟩)
    refine hw.trans ?_
    rw [bracedAttribute, braces]
    exact ⟨(attributeName tag name ++ "=" ++ "\x7b" ++ "[").toList, ("].filter(Boolean).join(\" \")" ++ "\x7d").toList,
      by simp⟩
  · rw [hq]
    refine oneLine_between (by decide) (by decide) fun hm => break_not_mem_quote word ?_
    rw [hq]
    exact .tail _ (mem_append_left _ hm)

theorem reads_slot (parts : SlotParts) : ∃ piece, "\x7b".toList ++ piece <:+: (renderSlot parts).toList ∧
    ('\n' ∉ parts.prop.toList → OneLine piece) ∧
    ∀ more, (readSlot (piece ++ more) = some ⟨parts.prop.toList, false⟩ ↔ IsVariable parts.prop.toList) := by
  rw [renderSlot]
  split
  · refine ⟨parts.prop.toList ++ ['\x7d'], ⟨[], [], by simp [braces]⟩, (oneLine_singleton (by decide)).append,
      fun more => ?_⟩
    rw [append_assoc]
    exact readSlot_iff ⟨'\x7d', more, rfl, by decide, by decide⟩
  · refine ⟨parts.prop.toList ++ [' ', '?'], ?_, ?_, fun more => ?_⟩
    · exact ⟨[], ("? " ++ inFragment (String.join parts.fallback) ++ "\x7d").toList, by simp [braces]⟩
    · exact OneLine.append ⟨by decide, ⟨'?', by decide, by decide⟩, by decide⟩
    · rw [append_assoc]
      exact readSlot_iff ⟨' ', '?' :: more, rfl, by decide, by decide⟩

theorem fits_dialect : dialect.Fits e (renderer c) where
  writes := writes_renderer
  merges := rfl
  signs := fun _ => oneLine_of_mem_signs
  lines h := h
  texts {texts rest} htx hr := by
    have ha {c : Char} (hc : c ∈ (String.join texts).toList) : ∃ text ∈ texts, c ∈ text.toList := by
      rw [String.toList_join] at hc
      exact mem_flatMap.mp hc
    rw [written_dialect]
    refine (readText_iff hr).mpr ⟨fun c hc => ?_, cleanJsxChars_eq_self (fun hc => ?_) (fun hc => ?_) fun hc => ?_⟩
    all_goals obtain ⟨text, ht, hc⟩ := ha hc
    · exact (htx text ht).1.plain c hc
    · exact (htx text ht).1.oneLine.1 hc
    · exact (htx text ht).1.oneLine.2 hc
    · exact (htx text ht).2 hc
  fallback hr := readText_iff (.inr hr)
  value {tag name value _} h := by
    obtain rfl := yields_pure h
    dsimp only [dialect]
    exact reads_static e tag name value
  word {tag name _ _ _ _} _ _ h he := by
    obtain rfl := yields_pure h
    exact reads_word tag name he
  slot {parts name _} h _ hp := by
    obtain rfl := yields_pure h
    have hs := reads_slot parts
    rw [hp] at hs
    dsimp only [dialect]
    exact hs

end React

/-! ### Svelte -/

namespace Svelte

/-- Static strings in Svelte files. -/
def dialect : Dialect where
  frame := frame
  merges := false
  attributeName _ name := htmlAttributeName name
  slotLead := "<slot name="
  slotLiteral name := ⟨name.toList, true⟩
  readText := readText
  readValue := readValue
  readSlot := readValue
  SafeText value := '<' ∉ value.toList ∧ '\x7b' ∉ value.toList
  SafeValue _ _ := True
  SafeSlot name := '"' ∉ name.toList ∧ '\x7b' ∉ name.toList

variable {c : Component} {e : Entities}

theorem written_dialect (texts : List String) : dialect.written texts = (String.join texts).toList := by
  rw [Dialect.written, show dialect.frame.text = id from rfl, map_id]

theorem reads_static (value : String) : ('\n' ∉ value.toList → OneLine (quoteStatic value).toList) ∧
    ∀ more, readValue ((quoteStatic value).toList ++ more) = some ⟨withReferences value.toList, true⟩ := by
  rw [toList_quoteStatic]
  refine ⟨fun hb => oneLine_between (by decide) (by decide) ?_, fun more => ?_⟩
  · refine not_mem_flatMap_inPlaceOf (by decide) fun hm => absurd hm ?_
    refine not_mem_flatMap_inPlaceOf (by decide) fun hm => absurd hm ?_
    exact not_mem_flatMap_inPlaceOf (by decide) fun hm => absurd hm hb
  · rw [cons_append, append_assoc]
    exact readValue_withReferences _ more

/-- Slots are written with their names in quotes. -/
theorem isInfix_renderSlot {parts : SlotParts} {name : String} (h : parts.name = some name) :
    "<slot name=".toList ++ '"' :: (name.toList ++ ['"']) <:+: (renderSlot parts).toList := by
  rw [renderSlot, h]
  dsimp only
  split
  · exact ⟨[], " />".toList, by simp⟩
  · exact ⟨[], (">" ++ String.join parts.fallback ++ "</slot>").toList, by simp⟩

theorem fits_dialect : dialect.Fits e (renderer c) where
  writes := writes_renderer
  merges := rfl
  signs := fun _ => React.oneLine_of_mem_signs
  lines h := h
  texts {texts rest} htx hr := by
    have hp : ∀ c ∈ (String.join texts).toList, isBracket c = false := by
      intro c hc
      rw [String.toList_join] at hc
      obtain ⟨text, ht, hc⟩ := mem_flatMap.mp hc
      exact (htx text ht).1.plain c hc
    rw [written_dialect]
    exact (readText_iff hr).mpr ⟨fun hm => absurd (hp _ hm) (by decide), fun hm => absurd (hp _ hm) (by decide)⟩
  fallback hr := readText_iff (.inr hr)
  value {tag name value out} h := by
    have h : Yields (lift (renderAttr (htmlAttributeName name) (.static value)) : Hooked String) out := h
    cases yields_lift h
    obtain ⟨hl, hre⟩ := reads_static value
    dsimp only [dialect]
    exact ⟨(quoteStatic value).toList, ⟨withReferences value.toList, true⟩, String.toList_append, hl, hre,
      iff_of_true (decode_withReferences e _) trivial⟩
  word hme := by cases hme
  slot {parts name _} h hn _ := by
    obtain rfl := yields_pure h
    dsimp only [dialect]
    refine ⟨_, isInfix_renderSlot hn, oneLine_between (by decide) (by decide), fun more => ?_⟩
    rw [cons_append, append_assoc]
    exact readValue_iff more

end Svelte

/-! ### Lit -/

theorem mem_escapeTemplateChars {c : Char} {cs : List Char} (h : c ∈ escapeTemplateChars cs) : c = '\\' ∨ c ∈ cs := by
  induction cs with
  | nil => cases h
  | cons d cs ih =>
    rw [escapeTemplateChars_cons] at h
    split at h
    · rcases mem_cons.mp h with rfl | h
      · exact .inl rfl
      · rcases mem_cons.mp h with rfl | h
        · exact .inr (.head _)
        · exact (ih h).imp_right (mem_cons_of_mem _)
    · rcases mem_cons.mp h with rfl | h
      · exact .inr (.head _)
      · exact (ih h).imp_right (mem_cons_of_mem _)

/-- Texts are escaped one by one, unless a brace follows. -/
theorem escapeTemplateChars_append (part : List Char) {rest : List Char} (h : rest.head? ≠ some '\x7b') :
    escapeTemplateChars (part ++ rest) = escapeTemplateChars part ++ escapeTemplateChars rest := by
  induction part with
  | nil => rfl
  | cons c part ih =>
    have he : isEscaped c (part ++ rest) = isEscaped c part := by
      rw [isEscaped, isEscaped, Bool.eq_iff_iff]
      simp only [Bool.or_eq_true, Bool.and_eq_true, beq_iff_eq, head?_append_iff h]
    rw [cons_append, escapeTemplateChars_cons, escapeTemplateChars_cons, he, ih]
    split <;> rfl

namespace Lit

/-- Static strings in Lit files. -/
def dialect : Dialect where
  frame := frame
  merges := true
  attributeName _ name := htmlAttributeName name
  slotLead := "<slot name="
  slotLiteral name := ⟨name.toList, true⟩
  readText := readText
  readValue := readValue
  readSlot := readValue
  SafeText value := '<' ∉ value.toList ∧ '\r' ∉ value.toList
  SafeValue _ value := '\r' ∉ value.toList
  SafeSlot name := Unended '"' name.toList ∧ '\\' ∉ name.toList ∧ '\r' ∉ name.toList

variable {c : Component} {e : Entities}

theorem break_not_mem_escapeTemplateChars {value : List Char} (h : '\n' ∉ value) :
    '\n' ∉ escapeTemplateChars value := by
  intro hm
  rcases mem_escapeTemplateChars hm with heq | hm
  · exact absurd heq (by decide)
  · exact h hm

theorem toList_escapeTemplate (text : String) : (escapeTemplate text).toList = escapeTemplateChars text.toList :=
  String.toList_ofList

theorem written_dialect {texts : List String} (h : ∀ text ∈ texts, ∀ c ∈ text.toList, isBracket c = false) :
    dialect.written texts = escapeTemplateChars (String.join texts).toList := by
  induction texts with
  | nil => rfl
  | cons text texts ih =>
    have hh : (String.join texts).toList.head? ≠ some '\x7b' := by
      intro heq
      have hm := mem_of_head? heq
      rw [String.toList_join] at hm
      obtain ⟨other, ho, hm⟩ := mem_flatMap.mp hm
      exact absurd (h other (.tail _ ho) _ hm) (by decide)
    have hj (first : String) (rest : List String) :
        (String.join (first :: rest)).toList = first.toList ++ (String.join rest).toList := by
      simp [String.toList_join]
    rw [hj, escapeTemplateChars_append _ hh, ← ih fun other ho => h other (.tail _ ho),
      Dialect.written, map_cons, hj, ← toList_escapeTemplate]
    rfl

theorem reads_static (tag name value : String) : ∃ piece,
    (renderAttr tag name (.static value)).toList = (name ++ "=").toList ++ piece ∧
      ('\n' ∉ value.toList → OneLine piece) ∧
      ∀ more, readValue (piece ++ more) = some ⟨foldBreaks (withReferences value.toList), true⟩ := by
  have hv : (replaceAll "\"" "&quot;" (escapeTemplate value)).toList =
      withReferences (escapeTemplateChars value.toList) := by
    rw [replaceAll, String.toList_ofList, show "\"".toList = ['"'] from rfl, replaceFrom_singleton,
      toList_escapeTemplate]
    rfl
  refine ⟨'"' :: (withReferences (escapeTemplateChars value.toList) ++ ['"']), ?_, fun hb => ?_, fun more => ?_⟩
  · simp [renderAttr, hv]
  · refine oneLine_between (by decide) (by decide) ?_
    exact not_mem_flatMap_inPlaceOf (by decide) fun hm => absurd hm (break_not_mem_escapeTemplateChars hb)
  · rw [cons_append, append_assoc]
    exact readValue_escaped _ more

/-- What the words of classes beside a class map are read as. -/
theorem reads_word {entries : List MapEntry} (h : ⟨word, "true"⟩ ∈ entries) (hb : '\n' ∉ word.toList) :
    ∃ piece, piece <:+: ("class=" ++ substitution ("classMap(" ++ objectLiteral entries ++ ")")).toList ∧
      OneLine piece ∧ ∀ more, readWord (piece ++ more) = some ⟨word.toList, false⟩ := by
  have hf : ((if isIdentifier word then word else quote word) ++ ": " ++ "true").toList <:+:
      (objectLiteral entries).toList := by
    unfold objectLiteral
    extract_lets fields
    have hme : (if isIdentifier word then word else quote word) ++ ": " ++ "true" ∈ fields := mem_map.mpr ⟨_, h, rfl⟩
    have hs : (join ", " fields).toList <:+: (" " ++ join ", " fields ++ " ").toList :=
      ⟨" ".toList, " ".toList, by simp⟩
    exact ((isInfix_join hme).trans hs).trans (React.isInfix_braces _)
  have hm : (objectLiteral entries).toList <:+:
      ("class=" ++ substitution ("classMap(" ++ objectLiteral entries ++ ")")).toList := by
    rw [String.toList_append]
    refine List.IsInfix.trans ?_ ((isInfix_substitution _).trans (suffix_append _ _).isInfix)
    exact ⟨"classMap(".toList, ")".toList, by simp⟩
  refine ⟨(if isIdentifier word then word else quote word).toList ++ [':'], ?_,
    (oneLine_singleton (by decide)).append ?_, fun more => ?_⟩
  · exact List.IsInfix.trans ⟨[], " true".toList, by simp⟩ (hf.trans hm)
  · split
    · exact hb
    · exact break_not_mem_quote word
  · rw [append_assoc]
    split
    · next hw =>
      obtain ⟨keyword, hk⟩ := wordKind_false word.toList
      rw [readWord, scanToken_name hw (by rintro c ⟨⟩; decide), hk, String.ofList_toList]
    · exact readWord_quote word _

/-- Slots are written with their names in quotes. -/
theorem isInfix_renderSlot {parts : SlotParts} {name : String} (h : parts.name = some name) :
    "<slot name=".toList ++ '"' :: (name.toList ++ ['"']) <:+: (renderSlot parts).toList := by
  rw [renderSlot, h]
  exact ⟨[], (">" ++ String.join parts.fallback ++ "</slot>").toList, by simp⟩

theorem fits_dialect : dialect.Fits e (renderer c) where
  writes := writes_renderer
  merges := rfl
  signs := by
    intro sign hs
    simp only [dialect, frame, mem_cons, not_mem_nil, or_false] at hs
    rcases hs with rfl | rfl | rfl
    · exact oneLine_singleton (by decide)
    · exact oneLine_singleton (by decide)
    · exact ⟨by decide, ⟨'$', by decide, by decide⟩, by decide⟩
  lines {value} h hm := break_not_mem_escapeTemplateChars h (toList_escapeTemplate value ▸ hm)
  texts {texts rest} htx hr := by
    have ha {c : Char} (hc : c ∈ (String.join texts).toList) : ∃ text ∈ texts, c ∈ text.toList := by
      rw [String.toList_join] at hc
      exact mem_flatMap.mp hc
    rw [written_dialect fun text ht => (htx text ht).1.plain]
    refine (readText_iff hr).mpr ⟨fun hm => ?_, fun hm => ?_⟩
    · obtain ⟨text, ht, hm⟩ := ha hm
      exact absurd ((htx text ht).1.plain _ hm) (by decide)
    · obtain ⟨text, ht, hm⟩ := ha hm
      exact (htx text ht).2 hm
  fallback {value rest} hr := by
    rw [show dialect.frame.text value = escapeTemplate value from rfl, toList_escapeTemplate]
    exact readText_iff (.inr hr)
  value {tag name value _} h := by
    obtain rfl := yields_pure h
    obtain ⟨piece, heq, hl, hre⟩ := reads_static tag (htmlAttributeName name) value
    dsimp only [dialect]
    exact ⟨piece, _, heq, hl, hre, decode_foldBreaks_withReferences e _⟩
  word _ hb h he := by
    obtain ⟨_, -, h⟩ := h.exists_of_bind
    obtain rfl := yields_pure h
    exact reads_word he hb
  slot {parts name _} h hn _ := by
    obtain rfl := yields_pure h
    dsimp only [dialect]
    refine ⟨_, isInfix_renderSlot hn, oneLine_between (by decide) (by decide), fun more => ?_⟩
    rw [cons_append, append_assoc]
    exact readValue_iff more

end Lit

/-! ### Files -/

/-- A block of code holds the lines of its body. -/
theorem isInfix_codeBlock {body : String} (hl : OneLine piece) (h : piece <:+: body.toList) :
    piece <:+: (codeBlock body).toList := by
  have hi : piece <:+: (indent body "  ").toList := hl.isInfix_indent h
  refine hi.trans (List.IsInfix.trans ?_ (React.isInfix_braces _))
  exact ⟨"\n".toList, "\n".toList, by simp⟩

theorem isInfix_fileOf {part : String} {parts : List String} (h : part ∈ parts) :
    part.toList <:+: (fileOf parts).toList := by
  rw [fileOf, String.toList_append]
  exact (isInfix_join h).trans (prefix_append _ _).isInfix

namespace React

variable {c : Component} {d : Draft} {e : Entities} {scope : String} {template : Template}

/-- The static strings of a marked template are those of the template. -/
theorem carries_of_withScope {code file : List Char} (h : dialect.Carries e (withScope scope template) code file) :
    dialect.Carries e template code file := by
  have hta {node : Template} {tag : String} (hn : template.Reaches node) (ht : node.tag? = some tag) :
      (withScope scope template).Reaches node ∨ (withScope scope template).Reaches (markScope scope node) :=
    reaches_withScope hn (by rintro children rfl; cases ht)
  -- control forms are not marked
  have hc {node : Template} {tag : String} (hn : template.Reaches node) (ht : node.tag? = some tag)
      (ho : isControlTag tag = true) : (withScope scope template).Reaches node := by
    have hs : markScope scope node = node := markScope_of_isOpen ((Template.isOpen_of_tag? ht).trans ho)
    rcases hta hn ht with h | h
    · exact h
    · rwa [hs] at h
  refine ⟨fun hn => ?_, fun {node _ _ _} hn hp ht ha => ?_, fun {node _ _ _ _} hm hn hp ht hma ha => ?_,
    fun hn ht => h.fallback (hc hn ht rfl) ht,
    fun hn ht => h.slot (hc hn ht rfl) ht⟩
  · obtain ⟨others, rest, hot, hf⟩ := h.text (reaches_text_withScope.mpr hn)
    exact ⟨others, rest, fun other hoh => reaches_text_withScope.mp (hot other hoh), hf⟩
  · rcases hta hn ht with hr | hr
    · exact h.value hr hp ht ha
    · refine h.value hr (isPlain_markScope scope hp) ((tag?_markScope scope node).trans ht) ?_
      rcases attributes_markScope scope node with heq | heq
      · rwa [heq]
      · rw [heq, writtenAttributes_append]
        exact mem_append_left _ ha
  · rcases hta hn ht with hr | hr
    · exact h.word hm hr hp ht hma ha
    · refine h.word hm hr (isPlain_markScope scope hp) ((tag?_markScope scope node).trans ht) ?_ ?_
      all_goals rcases attributes_markScope scope node with heq | heq
      · rwa [heq]
      · rw [heq, any_append, hma, Bool.true_or]
      · rwa [heq]
      · rw [heq]
        exact mem_append_left _ ha

theorem isInfix_inContext {markup : String} (provided : List Json) (h : piece <:+: markup.toList) :
    piece <:+: (provided.foldl inContext markup).toList := by
  induction provided generalizing markup with
  | nil => exact h
  | cons first rest ih =>
    refine ih (h.trans ?_)
    unfold inContext
    extract_lets context value
    exact ⟨("<" ++ context ++ ".Provider value=" ++ braces value ++ ">").toList,
      ("</" ++ context ++ ".Provider>").toList, by simp⟩

/-- The code of the template holds its markup, marked or not. -/
theorem exists_root (hr : hooks.run c = .ok d) : ∃ root markup,
    (root = c.template ∨ ∃ scope, root = withScope scope c.template) ∧
      Yields (renderTemplate (renderer c) root) markup ∧ markup.toList <:+: d.template.codeOnly.toList := by
  obtain ⟨artifact, ⟨w, w', h⟩, ha⟩ := exists_artifact_of_turns (drafts_of_run rfl hr).template
  have hc : d.template.codeOnly = artifact.code := by rw [ha]; rfl
  rw [hc]
  unfold templateHook at h
  obtain ⟨_, _, hg, h⟩ := run_bind_eq_ok h
  cases hg
  obtain ⟨markup, _, hm, h⟩ := run_bind_eq_ok h
  obtain ⟨later, _, -, h⟩ := run_bind_eq_ok h
  cases h
  refine ⟨_, markup, ?_, ⟨_, _, hm⟩, isInfix_inContext _ ?_⟩
  · split
    · exact .inr ⟨_, rfl⟩
    · exact .inl rfl
  · split
    · exact infix_rfl
    · exact ⟨("<>" ++ ("<style>" ++ braces "styles" ++ "</style>")).toList, "</>".toList, by simp [inFragment]⟩

/-- The file holds the lines of the code of the template. -/
theorem isInfix_file (hl : OneLine piece) (h : piece <:+: d.template.codeOnly.toList) :
    piece <:+: (file d).toList := by
  have hr : piece <:+: ("return (\n  " ++ d.template.codeOnly ++ "\n);").toList :=
    h.trans ⟨"return (\n  ".toList, "\n);".toList, by simp⟩
  have hm : "return (\n  " ++ d.template.codeOnly ++ "\n);" ∈ statements d := mem_append_right _ (.head _)
  have hb : piece <:+: (codeBlock (join "\n\n" (statements d))).toList :=
    isInfix_codeBlock hl (hr.trans (isInfix_join hm))
  unfold file
  extract_lets styles function
  have hf : piece <:+: function.toList := by
    refine hb.trans ?_
    rw [show function = ("export function " ++ d.name ++ "(" ++ parameter d ++ ": " ++ d.name ++ "Props) ") ++
      codeBlock (join "\n\n" (statements d)) from rfl, String.toList_append]
    exact (suffix_append _ _).isInfix
  refine hf.trans (isInfix_fileOf ?_)
  exact mem_append_right _ (.tail _ (.head _))

theorem carries (hru : hooks.run c = .ok d) (hl : c.template.Lowered) (hm : c.template.IsMarkup) :
    dialect.Carries e c.template d.template.codeOnly.toList (file d).toList := by
  obtain ⟨root, markup, hr, hy, before, after, hc⟩ := exists_root hru
  rcases hr with rfl | ⟨scope, rfl⟩
  · exact fits_dialect.carries hy hl hm hc.symm (.inl rfl) fun _ => isInfix_file
  · exact carries_of_withScope (fits_dialect.carries hy (lowered_withScope hl) (isMarkup_withScope hm)
      hc.symm (.inl rfl) fun _ => isInfix_file)

end React

namespace Svelte

variable {c : Component} {d : Draft} {e : Entities}

theorem exists_markup (hr : hooks.run c = .ok d) :
    ∃ markup, Yields (renderTemplate (renderer c) c.template) markup ∧ d.template.codeOnly = markup := by
  obtain ⟨artifact, h, ha⟩ := exists_artifact_of_turns (drafts_of_run rfl hr).template
  obtain ⟨markup, hm, h⟩ := h.exists_of_bind
  obtain rfl := yields_pure h
  rw [ha]
  exact ⟨markup, hm, rfl⟩

theorem carries (hr : hooks.run c = .ok d) (hl : c.template.Lowered) (hm : c.template.IsMarkup) :
    dialect.Carries e c.template d.template.codeOnly.toList (file d).toList := by
  obtain ⟨markup, hy, rfl⟩ := exists_markup hr
  have hc : d.template.codeOnly.toList = [] ++ d.template.codeOnly.toList ++ [] := by simp
  refine fits_dialect.carries hy hl hm hc (.inr (.inl rfl)) fun piece _ hp => hp.trans ?_
  unfold file
  extract_lets script
  generalize (if d.styles.isEmpty then "" else _) = styles
  exact ⟨("<script lang=\"ts\">\n" ++ join "\n\n" script ++ "\n</script>\n\n").toList, ("\n" ++ styles).toList, by simp⟩

end Svelte

namespace Lit

variable {c : Component} {d : Draft} {e : Entities} {text : String}

theorem exists_markup (hr : hooks.run c = .ok d) : ∃ markup, Yields (renderTemplate (renderer c) c.template) markup ∧
    d.template = .artifact { code := "render() " ++ braces ("\n  return " ++ htmlLiteral markup ++ ";\n") } := by
  obtain ⟨artifact, h, ha⟩ := exists_artifact_of_turns (drafts_of_run rfl hr).template
  obtain ⟨markup, hm, h⟩ := h.exists_of_bind
  obtain rfl := yields_pure h
  exact ⟨markup, hm, ha⟩

/-- The file holds the lines of the members of the class. -/
theorem isInfix_file_of_mem {member : String} (hf : file d = .ok text) (hl : OneLine piece)
    (hm : member ∈ members d) (h : piece <:+: member.toList) : piece <:+: text.toList := by
  have hb : piece <:+: (codeBlock (join "\n\n" (members d))).toList := isInfix_codeBlock hl (h.trans (isInfix_join hm))
  unfold file at hf
  split at hf
  · cases hf
  · next selector _ =>
    cases hf
    refine List.IsInfix.trans ?_ (isInfix_fileOf (mem_append_right _ (.head _)))
    rw [String.toList_append]
    exact hb.trans (suffix_append _ _).isInfix

/-- The file holds the lines of the code of the template. -/
theorem isInfix_file {artifact : Artifact} (ha : d.template = .artifact artifact) (hf : file d = .ok text)
    (hl : OneLine piece) (h : piece <:+: artifact.code.toList) : piece <:+: text.toList := by
  refine isInfix_file_of_mem hf hl ?_ h
  rw [members, ha]
  exact mem_append_right _ (.head _)

theorem carries (hr : hooks.run c = .ok d) (hf : file d = .ok text) (hlo : c.template.Lowered)
    (hm : c.template.IsMarkup) : dialect.Carries e c.template d.template.codeOnly.toList text.toList := by
  obtain ⟨markup, hy, ha⟩ := exists_markup hr
  have hc : d.template.codeOnly.toList = ("render() " ++ "\x7b" ++ "\n  return " ++ "html`").toList ++ markup.toList ++
        ("`" ++ (";\n" ++ "\x7d")).toList := by
    rw [ha]
    simp [Emitted.codeOnly, Emitted.artifact?, braces, htmlLiteral]
  refine fits_dialect.carries hy hlo hm hc (.inr (.inr (Frame.opens_of_mem (by decide)))) ?_
  intro piece hl hp
  refine isInfix_file ha hf hl ?_
  rwa [ha] at hp

end Lit

/-- **Static strings in files.** In the React, Svelte and Lit files of a component, the static strings of its template
are carried as the dialects say: text between tags, safe values, safe fallbacks and safe names of slots are read as the
text that they stand for, and other values, fallbacks and names are not. -/
theorem static_strings_carried {source : String} {c : Component} (hsource : extractComponent source = .ok c)
    (e : Entities) :
    (∀ d, React.hooks.run c = .ok d →
      React.dialect.Carries e c.template d.template.codeOnly.toList (React.file d).toList) ∧
    (∀ d, Svelte.hooks.run c = .ok d →
      Svelte.dialect.Carries e c.template d.template.codeOnly.toList (Svelte.file d).toList) ∧
    ∀ d text, Lit.hooks.run c = .ok d → Lit.file d = .ok text →
      Lit.dialect.Carries e c.template d.template.codeOnly.toList text.toList := by
  obtain ⟨hl, hm⟩ := lowered_of_extractComponent hsource
  exact ⟨fun d hr => React.carries hr hl hm, fun d hr => Svelte.carries hr hl hm,
    fun d text hr hf => Lit.carries hr hf hl hm⟩

/-! ### A note with a fallback -/

/-- A note that shows the given text while it is closed. -/
def noteSource (fallback : String) : String := "import \x7b Component, Prop, Show \x7d from \"@tessera/core\";
@Component()
class Note \x7b
  @Prop() readonly open!: boolean;
  render() \x7b return <div><Show when=\x7bthis.open\x7d fallback=\"" ++ fallback ++ "\">Hi</Show></div>; \x7d
\x7d
"

def AttributeValue.isStatic (text : String) : AttributeValue → Bool
  | .static value => value == text
  | _ => false

/-- A template whose children include a conditional with the given fallback. -/
def Template.hasFallback (text : String) (template : Template) : Bool :=
  template.tag? == some "div" && template.children.any fun node =>
    node.tag? == some "Show" && (node.attribute? "fallback").any (·.isStatic text)

theorem exists_fallback {template : Template} {text : String} (h : template.hasFallback text) :
    ∃ node, template.Reaches node ∧ node.tag? = some "Show" ∧ node.attribute? "fallback" = some (.static text) := by
  rw [Template.hasFallback, Bool.and_eq_true, any_eq_true] at h
  obtain ⟨ht, node, hn, h⟩ := h
  obtain ⟨hsh, h⟩ := Bool.and_eq_true_iff.mp h
  obtain ⟨value, hv, hs⟩ := (Option.any_eq_true _ _).mp h
  have hp : template.IsPlain := by
    rw [beq_iff_eq] at ht
    exact ⟨by simp [ht], by simp [ht], by simp [ht]⟩
  refine ⟨node, .single (show node ∈ template.next from ?_), beq_iff_eq.mp hsh, ?_⟩
  · rw [next_plain hp]
    exact mem_append_right _ hn
  · cases value with
    | static value => rw [hv, beq_iff_eq.mp hs]
    | _ => cases hs

/-- The references to the characters that markup is made of. -/
def standardEntities : Entities where
  text? name := [("quot".toList, ['"']), ("amp".toList, ['&']), ("lt".toList, ['<']), ("gt".toList, ['>']),
    ("#123".toList, ['\x7b']), ("#125".toList, ['\x7d'])].lookup name
  quote := by decide
  openBrace := by decide
  closeBrace := by decide

/-- A fallback of plain words is text in the file. -/
theorem static_strings_carried_words : ∃ c d, extractComponent (noteSource "Not yet") = .ok c ∧
    React.hooks.run c = .ok d ∧ c.template.hasFallback "Not yet" = true ∧ ∃ piece, piece <:+: (React.file d).toList ∧
      ∀ more, React.readText (piece ++ more) = some ⟨"Not yet".toList, true⟩ := by
  obtain ⟨c, hc, ht⟩ := exists_of_any (p := fun c => c.template.hasFallback "Not yet" &&
      (React.hooks.run c).toOption.isSome)
    (show (extractComponent (noteSource "Not yet")).toOption.any _ = true by decide +kernel)
  obtain ⟨hf, hr⟩ := Bool.and_eq_true_iff.mp ht
  obtain ⟨node, hn, hta, hv⟩ := exists_fallback hf
  cases hd : React.hooks.run c with
  | error error =>
    rw [hd] at hr
    cases hr
  | ok d =>
    obtain ⟨piece, -, -, hp, hre⟩ := ((static_strings_carried hc standardEntities).1 d hd).fallback hn hta hv
    refine ⟨c, d, hc, hd, hf, piece, hp (by decide), fun more => (hre more).mpr ?_⟩
    have hpl : "Not yet".toList.all (fun c => !isBracket c) := by decide
    exact ⟨fun c hc => by simpa using all_eq_true.mp hpl c hc, by decide⟩

/-- A fallback in braces is code in the file: what was to be shown is the text, and what is shown is a variable. -/
theorem braced_fallback_embedded : ∃ c d, extractComponent (noteSource "\x7bopen\x7d") = .ok c ∧
    React.hooks.run c = .ok d ∧ c.template.hasFallback "\x7bopen\x7d" = true ∧
    d.template.codeOnly = "<div>\x7bopen ? (<>Hi</>) : (<>\x7bopen\x7d</>)\x7d</div>" ∧
    React.readText "\x7bopen\x7d</>)\x7d</div>".toList = some ⟨[], true⟩ ∧
    scanJsxChild "\x7bopen\x7d</>)\x7d</div>".toList = ⟨.punct .lbrace, 1, "open\x7d</>)\x7d</div>".toList⟩ := by
  obtain ⟨c, hc, ht⟩ := exists_of_any (p := fun c => c.template.hasFallback "\x7bopen\x7d" &&
      (React.hooks.run c).toOption.any fun d =>
        d.template.codeOnly == "<div>\x7bopen ? (<>Hi</>) : (<>\x7bopen\x7d</>)\x7d</div>")
    (show (extractComponent (noteSource "\x7bopen\x7d")).toOption.any _ = true by decide +kernel)
  obtain ⟨hf, hr⟩ := Bool.and_eq_true_iff.mp ht
  obtain ⟨d, hd, hco⟩ := exists_of_any hr
  exact ⟨c, d, hc, hd, hf, beq_iff_eq.mp hco, rfl, rfl⟩

end Polyview
