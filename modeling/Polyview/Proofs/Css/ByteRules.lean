import Polyview.Proofs.Css.ByteScan
import Polyview.Proofs.Css.Sheet

/-! # Confining rules byte by byte

The rules of a stylesheet can be confined in one pass over its text, which looks for delimiters by byte index and cuts
the text at the indices found. Every read and every cut is checked. The pass comes to its end without a fault, on every
text, and gives what reading the rules and confining them gives (`confineRules_eq`). -/

namespace Polyview.Css

open List Text Option

/-! ### The pass -/

/-- A selector in front of its pseudo-element, and the pseudo-element. -/
def cutPseudo (text : List Char) : Except Fault Selector :=
  match findPair? (byteOf ':') (byteOf ':') (utf8 text) with
  | some i => do
    let base ← cut text 0 i
    let pseudo ← cut text i (byteLength text)
    return ⟨trimChars base, pseudo⟩
  | none => return ⟨trimChars text, []⟩

/-- Confines a selector. -/
def confineSelector (lead text : List Char) : Except Fault (List Char) := do
  let selector ← cutPseudo (trimChars text)
  return selector.scoped lead

/-- Confines the selectors between commas. -/
def confineSelectors (lead : List Char) : ℕ → List Char → Except Fault (List (List Char))
  | 0, _ => .error .unfinished
  | fuel + 1, text => do
    match ← findTopLevel text [','] with
    | none =>
      let last ← confineSelector lead text
      return [last]
    | some comma =>
      let first ← cut text 0 comma
      let first ← confineSelector lead first
      let rest ← cut text (comma + 1) (byteLength text)
      let others ← confineSelectors lead fuel rest
      return first :: others

/-- Confines a rule with a block between two braces; `inner` confines the rules in it. -/
def confineBlock (lead : List Char) (inner : List Char → Except Fault (List (List Char))) (text : List Char)
    (stop close : ℕ) : Except Fault (List Char) := do
  let prelude ← cut text 0 stop
  let prelude := trimChars prelude
  let body ← cut text (stop + 1) close
  if isGrouping prelude then
    let rules ← inner (trimChars body)
    return prelude ++ ' ' :: '\x7b' :: ' ' :: joinChars [' '] rules ++ [' ', '\x7d']
  else if prelude.head? == some '@' then cut text 0 (close + 1)
  else
    let selectors ← confineSelectors lead (prelude.length + 1) prelude
    return joinChars [',', ' '] selectors ++ ' ' :: '\x7b' :: body ++ ['\x7d']

/-- Confines the rules of a text that does not start with a blank. -/
def confineRules (lead : List Char) : ℕ → List Char → Except Fault (List (List Char))
  | 0, _ => .error .unfinished
  | fuel + 1, text =>
    if text.isEmpty then return []
    else do
      match ← findTopLevel text ['\x7b', ';'] with
      | none => return [text]
      | some stop =>
        let byte ← byteAt (utf8 text) stop
        if byte = byteOf ';' then
          let statement ← cut text 0 (stop + 1)
          let rest ← cut text (stop + 1) (byteLength text)
          let rules ← confineRules lead fuel (trimStartChars rest)
          return statement :: rules
        else
          match ← blockEnd text stop with
          | none => return [text]
          | some close =>
            let rule ← confineBlock lead (confineRules lead fuel) text stop close
            let rest ← cut text (close + 1) (byteLength text)
            let rules ← confineRules lead fuel (trimStartChars rest)
            return rule :: rules

/-- Confines every style rule of a stylesheet, in one pass over its bytes. -/
def confineStyles (scope styles : String) : Except Fault String := do
  let text := trimChars styles.toList
  let rules ← confineRules (scopeSelector scope.toList) (text.length + 1) text
  return String.ofList (joinChars [' '] rules)

/-! ### Cuts -/

section

variable {before part after text : List Char} {c : Char}

theorem cut_between (before part after : List Char) :
    cut (before ++ (part ++ after)) (byteLength before) (byteLength before + byteLength part) = .ok part := by
  rw [cut, if_pos (Nat.le_add_right _ _)]
  simp [Span.text?, splitBytes?_byteLength]

theorem cut_front (part after : List Char) : cut (part ++ after) 0 (byteLength part) = .ok part := by
  simpa using cut_between [] part after

theorem cut_back (before part : List Char) :
    cut (before ++ part) (byteLength before) (byteLength (before ++ part)) = .ok part := by
  simpa using cut_between before part []

/-- The text up to an ASCII character, and the character. -/
theorem cut_through (hc : c.utf8Size = 1) (before rest : List Char) :
    cut (before ++ c :: rest) 0 (byteLength before + 1) = .ok (before ++ [c]) := by
  have h := cut_front (before ++ [c]) rest
  simpa [hc] using h

/-- The text behind an ASCII character. -/
theorem cut_behind (hc : c.utf8Size = 1) (before rest : List Char) :
    cut (before ++ c :: rest) (byteLength before + 1) (byteLength (before ++ c :: rest)) = .ok rest := by
  have h := cut_back (before ++ [c]) rest
  simpa [hc] using h

end

/-! ### Selectors -/

theorem splitAtFirst?_eq_append {pat text before after : List Char} (h : splitAtFirst? pat text = some (before, after)) :
    text = before ++ after := by
  induction text generalizing before with
  | nil =>
    rw [splitAtFirst?] at h
    split at h <;> cases h
    rfl
  | cons c cs ih =>
    rw [splitAtFirst?] at h
    split at h
    · cases h
      rfl
    · obtain ⟨⟨front, back⟩, hs, heq⟩ := map_eq_some_iff.mp h
      cases heq
      rw [ih hs]
      rfl

/-- Two colons among the bytes are two among the characters. -/
theorem findPair?_colons (text : List Char) : findPair? (byteOf ':') (byteOf ':') (utf8 text) =
    (splitAtFirst? [':', ':'] text).map fun split => byteLength split.1 := by
  induction text with
  | nil => rfl
  | cons c cs ih =>
    by_cases hc : c = ':'
    · subst hc
      cases cs with
      | nil => rfl
      | cons d cs =>
        by_cases hs : d = ':'
        · subst hs
          rfl
        · obtain ⟨first, tail, hby⟩ := exists_cons_of_ne_nil (utf8EncodeChar_ne_nil d)
          have hf : first ≠ byteOf ':' := ne_byteOf_of_mem hs (by decide) (by rw [hby]; exact .head _)
          have hl : List.isPrefixOf [':', ':'] (':' :: d :: cs) = false := by
            simp [List.isPrefixOf, Ne.symm hs]
          have ho : (':').utf8Size = 1 := rfl
          rw [utf8_cons, hby, cons_append] at ih
          rw [splitAtFirst?, hl, utf8_cons, utf8EncodeChar_of_ascii (by decide), utf8_cons, hby, cons_append,
            cons_append, nil_append, findPair?, if_neg fun hp => hf hp.2, ih]
          simp [Function.comp_def, ho, Nat.add_comm]
    · have hl : List.isPrefixOf [':', ':'] (c :: cs) = false := by simp [List.isPrefixOf, Ne.symm hc]
      rw [splitAtFirst?, hl, utf8_cons, findPair?_inert fun b hb => ne_byteOf_of_mem hc (by decide) hb, ih,
        String.length_utf8EncodeChar]
      simp [Function.comp_def, Nat.add_comm]

theorem confineSelector_eq (lead text : List Char) :
    confineSelector lead text = .ok ((readSelector text).scoped lead) := by
  have hc : cutPseudo (trimChars text) = .ok (readSelector text) := by
    rw [cutPseudo, findPair?_colons, readSelector]
    cases hs : splitAtFirst? [':', ':'] (trimChars text) with
    | none => simp [trimChars_trimChars, pure, Except.pure]
    | some split =>
      obtain ⟨base, pseudo⟩ := split
      have ht := splitAtFirst?_eq_append hs
      simp only [map_some, ht, cut_front, cut_back, bind, Except.bind, pure, Except.pure]
  rw [confineSelector, hc]
  rfl

theorem confineSelectors_eq (lead : List Char) {fuel : ℕ} {text : List Char} (hf : text.length ≤ fuel) :
    confineSelectors lead (fuel + 1) text = .ok ((readSelectors fuel (atomsOf text)).map (Selector.scoped lead)) := by
  have hl : ∀ fuel text, splitTopLevel? [','] 0 (atomsOf text) = none →
      confineSelectors lead (fuel + 1) text = .ok [(readSelector text).scoped lead] := by
    intro fuel text hn
    rw [confineSelectors, findTopLevel_eq (by simp), hn, map_none]
    simp only [bind, Except.bind, confineSelector_eq, pure, Except.pure]
  induction fuel generalizing text with
  | zero =>
    obtain rfl := length_eq_zero_iff.mp (Nat.le_zero.mp hf)
    exact hl 0 [] rfl
  | succ fuel ih =>
    cases hs : splitTopLevel? [','] 0 (atomsOf text) with
    | none => rw [hl _ _ hs, readSelectors, hs, textOf_atomsOf, map_singleton]
    | some split =>
      obtain ⟨front, c, after⟩ := split
      obtain ⟨ha, hc⟩ := splitTopLevel?_eq_some hs
      obtain rfl := mem_singleton.mp hc
      obtain ⟨rest, rfl, rfl⟩ := atomsOf_eq_append ha
      have ho : (',').utf8Size = 1 := rfl
      have hr : rest.length ≤ fuel := by
        rw [length_append, length_cons] at hf
        omega
      rw [confineSelectors, findTopLevel_eq (by simp), hs, map_some, readSelectors, hs]
      simp only [bind, Except.bind, cut_front, cut_behind ho, confineSelector_eq, ih hr, pure, Except.pure, map_cons]

/-! ### Rules -/

theorem dropBlankAtoms_atomsOf (text : List Char) : dropBlankAtoms (atomsOf text) = atomsOf (trimStartChars text) := by
  induction text with
  | nil => rfl
  | cons c cs ih =>
    by_cases hb : isBlank c = true
    · have hq : c ∉ quotes := fun h => by simp [Stretch.isBlank_quote h] at hb
      have hs : c ≠ '/' := by rintro rfl; cases hb
      rw [atomsOf_cons hq fun h => absurd h hs, trimStartChars, dropWhile_cons_of_pos hb]
      unfold dropBlankAtoms at ih ⊢
      rw [dropWhile_cons_of_pos (by exact hb)]
      exact ih
    · rw [trimStartChars, dropWhile_cons_of_neg hb]
      rcases sealed_or_sign c cs with ⟨text, rest, -, -, ha⟩ | ha
      · rw [ha]
        rfl
      · rw [ha]
        exact dropWhile_cons_of_neg hb

theorem length_trimChars_le (text : List Char) : (trimChars text).length ≤ text.length :=
  (trimEndChars_isPrefix _).length_le.trans (dropWhile_sublist _).length_le

/-- A rule with a block is the one that the reader makes of its prelude and body. -/
theorem confineBlock_eq {lead front body rest : List Char} {rules : List Rule}
    {inner : List Char → Except Fault (List (List Char))}
    (hi : inner (trimChars body) = .ok (scopedRules lead rules)) :
    confineBlock lead inner (front ++ '\x7b' :: (body ++ '\x7d' :: rest)) (byteLength front)
        (byteLength (front ++ '\x7b' :: body)) = .ok ((ruleOf front body rules).scoped lead) := by
  have ho : ('\x7b').utf8Size = 1 := rfl
  have hc : ('\x7d').utf8Size = 1 := rfl
  have hb : cut (front ++ '\x7b' :: (body ++ '\x7d' :: rest)) (byteLength front + 1)
      (byteLength (front ++ '\x7b' :: body)) = .ok body := by
    simpa [ho, Nat.add_assoc] using cut_between (front ++ ['\x7b']) body ('\x7d' :: rest)
  have hw : cut (front ++ '\x7b' :: (body ++ '\x7d' :: rest)) 0 (byteLength (front ++ '\x7b' :: body) + 1) =
      .ok (front ++ '\x7b' :: body ++ ['\x7d']) := by
    simpa using cut_through hc (front ++ '\x7b' :: body) rest
  rw [confineBlock, cut_front, ruleOf]
  simp only [bind, Except.bind, hb, hw]
  split_ifs
  · simp only [hi, pure, Except.pure, Rule.scoped]
  · rw [Rule.scoped]
  · simp only [confineSelectors_eq lead (Nat.le_refl _), pure, Except.pure, Rule.scoped]

theorem byteAt_utf8 {c : Char} (hc : c.toNat < 128) (front rest : List Char) :
    byteAt (utf8 (front ++ c :: rest)) (byteLength front) = .ok (byteOf c) := by
  have h := ahead_utf8 front (c :: rest)
  rw [utf8_cons, utf8EncodeChar_of_ascii hc] at h
  exact h.byteAt_eq

/-- Atoms of a text that is not empty are read from where they are split. -/
theorem readRules_of_ne_nil {text : List Char} (h : text ≠ []) (fuel : ℕ) : readRules (fuel + 1) (atomsOf text) =
      (splitTopLevel? ['\x7b', ';'] 0 (atomsOf text)).elim [.verbatim text] fun split =>
        if split.2.1 == ';' then .verbatim (textOf split.1 ++ [';']) :: readRules fuel (dropBlankAtoms split.2.2)
        else (splitBlock? 0 split.2.2).elim [.verbatim text] fun block =>
          ruleOf (textOf split.1) (textOf block.1) (readRules fuel (atomsOf (trimChars (textOf block.1)))) ::
            readRules fuel (dropBlankAtoms block.2) := by
  have hne : atomsOf text ≠ [] := fun hn => h (by rw [← textOf_atomsOf text, hn]; rfl)
  obtain ⟨atom, atoms, hc⟩ := exists_cons_of_ne_nil hne
  rw [hc, readRules, ← hc, textOf_atomsOf]
  · cases splitTopLevel? ['\x7b', ';'] 0 (atomsOf text) with
    | none => rfl
    | some split =>
      dsimp only [elim_some]
      congr 1
      cases splitBlock? 0 split.2.2 <;> rfl
  · exact cons_ne_nil _ _

theorem length_trimStartChars_le (text : List Char) : (trimStartChars text).length ≤ text.length :=
  (dropWhile_sublist _).length_le

/-- **The pass over the bytes** comes to its end without a fault, and gives the rules that are read, confined. -/
theorem confineRules_eq (lead : List Char) {fuel : ℕ} {text : List Char} (hf : text.length < fuel) :
    confineRules lead fuel text = .ok (scopedRules lead (readRules fuel (atomsOf text))) := by
  induction fuel generalizing text with
  | zero => cases hf
  | succ fuel ih =>
    by_cases hne : text = []
    · subst hne
      rfl
    have he : text.isEmpty = false := by simpa using hne
    -- what follows a rule is shorter than the text
    have hn : ∀ rest : List Char, rest.length < text.length → confineRules lead fuel (trimStartChars rest) =
        .ok (scopedRules lead (readRules fuel (dropBlankAtoms (atomsOf rest)))) := by
      intro rest hr
      rw [dropBlankAtoms_atomsOf]
      have := length_trimStartChars_le rest
      exact ih (by omega)
    rw [readRules_of_ne_nil hne, confineRules, he, findTopLevel_eq (by simp)]
    cases hsp : splitTopLevel? ['\x7b', ';'] 0 (atomsOf text) with
    | none => rfl
    | some split =>
      obtain ⟨front, sign, after⟩ := split
      obtain ⟨ha, hsi⟩ := splitTopLevel?_eq_some hsp
      obtain ⟨rest, rfl, rfl⟩ := atomsOf_eq_append ha
      rw [mem_cons, mem_singleton] at hsi
      rcases hsi with rfl | rfl
      · have hb := byteAt_utf8 (c := '\x7b') (by decide) (textOf front) rest
        have hbl := blockEnd_eq (textOf front) rest
        have hbr : byteOf '\x7b' ≠ byteOf ';' := by decide
        cases hc : splitBlock? 0 (atomsOf rest) with
        | none =>
          rw [hc, map_none] at hbl
          simp [bind, Except.bind, hb, hbl, hbr, hc, pure, Except.pure, scopedRules, Rule.scoped]
        | some block =>
          obtain ⟨body, after⟩ := block
          obtain ⟨rest, rfl, rfl⟩ := atomsOf_eq_append (splitBlock?_eq_some hc)
          rw [hc, map_some] at hbl
          have hs : (textOf body).length < fuel ∧
              rest.length < (textOf front ++ '\x7b' :: (textOf body ++ '\x7d' :: rest)).length := by
            simp only [length_append, length_cons] at hf ⊢
            omega
          have hi := ih (Nat.lt_of_le_of_lt (length_trimChars_le (textOf body)) hs.1)
          have hr : cut (textOf front ++ '\x7b' :: (textOf body ++ '\x7d' :: rest))
              (byteLength (textOf front ++ '\x7b' :: textOf body) + 1)
              (byteLength (textOf front ++ '\x7b' :: (textOf body ++ '\x7d' :: rest))) = .ok rest := by
            have ho : ('\x7d').utf8Size = 1 := rfl
            simpa using cut_behind ho (textOf front ++ '\x7b' :: textOf body) rest
          have hst : ('\x7b' == ';') = false := rfl
          simp only [bind, Except.bind, hb, hbr, hbl, confineBlock_eq hi, hr, hn rest hs.2, hc,
            pure, Except.pure, map_some, elim_some, hst, Bool.false_eq_true, if_false, scopedRules]
      · have hb := byteAt_utf8 (c := ';') (by decide) (textOf front) rest
        have ho : (';').utf8Size = 1 := rfl
        have hs : rest.length < (textOf front ++ ';' :: rest).length := by
          rw [length_append, length_cons]
          omega
        simp only [bind, Except.bind, hb, cut_through ho, cut_behind ho, hn rest hs, pure, Except.pure,
          scopedRules, Rule.scoped, map_some, elim_some, beq_self_eq_true, if_true, Bool.false_eq_true,
          if_false]

theorem confineStyles_eq (scope styles : String) : confineStyles scope styles = .ok (scopeStyles scope styles) := by
  rw [confineStyles, confineRules_eq _ (Nat.lt_succ_self _)]
  rfl

/-! ### Indices -/

/-- A character starts at a byte index of a text. -/
def StartsAt (text : List Char) (i : ℕ) (c : Char) : Prop :=
  ∃ before after, text = before ++ c :: after ∧ byteLength before = i

theorem startsAt_of_findTopLevel {text stops : List Char} (hs : ∀ c ∈ stops, c.toNat < 128) :
    ∃ found, findTopLevel text stops = .ok found ∧ ∀ i ∈ found, ∃ c ∈ stops, StartsAt text i c := by
  refine ⟨_, findTopLevel_eq hs text, fun i hi => ?_⟩
  obtain ⟨⟨front, c, after⟩, hsp, rfl⟩ := map_eq_some_iff.mp hi
  obtain ⟨ha, hc⟩ := splitTopLevel?_eq_some hsp
  obtain ⟨rest, ht, -⟩ := atomsOf_eq_append ha
  exact ⟨c, hc, textOf front, rest, ht, rfl⟩

theorem startsAt_of_blockEnd {text : List Char} {opening : ℕ} (h : StartsAt text opening '\x7b') :
    ∃ found, blockEnd text opening = .ok found ∧ ∀ i ∈ found, opening < i ∧ StartsAt text i '\x7d' := by
  obtain ⟨before, after, rfl, rfl⟩ := h
  refine ⟨_, blockEnd_eq before after, fun i hi => ?_⟩
  obtain ⟨⟨body, behind⟩, hs, rfl⟩ := map_eq_some_iff.mp hi
  obtain ⟨rest, rfl, -⟩ := atomsOf_eq_append (splitBlock?_eq_some hs)
  refine ⟨?_, before ++ '\x7b' :: textOf body, rest, by simp, rfl⟩
  have := ('\x7b').utf8Size_pos
  rw [byteLength_append, byteLength_cons]
  omega

/-- **Scanning is safe on every text.** A search outside brackets comes to its end without a fault, and so does the
search for the end of a block from its opening brace. What they find is an index at which a character that was asked for
starts. The pass that confines the rules of a stylesheet by these searches makes no fault either: it comes to its end,
reads bytes in range, cuts at the ends of characters and never counts below zero, and it gives the confined styles. -/
theorem scanning_is_safe (scope styles : String) : (∀ text stops, (∀ c ∈ stops, c.toNat < 128) →
      ∃ found, findTopLevel text stops = .ok found ∧ ∀ i ∈ found, ∃ c ∈ stops, StartsAt text i c) ∧
    (∀ text opening, StartsAt text opening '\x7b' →
      ∃ found, blockEnd text opening = .ok found ∧ ∀ i ∈ found, opening < i ∧ StartsAt text i '\x7d') ∧
    confineStyles scope styles = .ok (scopeStyles scope styles) :=
  ⟨fun _ _ => startsAt_of_findTopLevel, fun _ _ => startsAt_of_blockEnd, confineStyles_eq scope styles⟩

/-- A sheet with an escape in front of a letter of two bytes, a closing brace too many, and an open string. -/
def brokenSheet : String := "p \x7b content: '\\é\\''; \x7d \x7d ::é, q \x7b \"\\"

/-- The sheet is scanned to its end. From behind the block, a search for its end would count below zero. -/
theorem brokenSheet_safe : StartsAt brokenSheet.toList 2 '\x7b' ∧
    (∃ found, findTopLevel brokenSheet.toList [','] = .ok found ∧ found = some 30 ∧
      ∃ c ∈ [','], StartsAt brokenSheet.toList 30 c) ∧
    (∃ found, blockEnd brokenSheet.toList 2 = .ok found ∧ found = some 22 ∧ StartsAt brokenSheet.toList 22 '\x7d') ∧
    blockEnd brokenSheet.toList 23 = .error .underflow ∧
    confineStyles "s" brokenSheet = .ok (":where([s], [s] *):is(p) \x7b content: '\\é\\''; \x7d" ++
      " \x7d ::é, q \x7b \"\\") := by
  have ho : StartsAt brokenSheet.toList 2 '\x7b' := ⟨"p ".toList, brokenSheet.toList.drop 3, by decide, by decide⟩
  obtain ⟨hs, hb, hst⟩ := scanning_is_safe "s" brokenSheet
  obtain ⟨comma, hcm, hct⟩ := hs brokenSheet.toList [','] (by simp)
  obtain ⟨close, hcl, hca⟩ := hb brokenSheet.toList 2 ho
  have hco : comma = some 30 :=
    Except.ok.inj (hcm.symm.trans (by decide +kernel : findTopLevel brokenSheet.toList [','] = .ok (some 30)))
  have hc : close = some 22 :=
    Except.ok.inj (hcl.symm.trans (by decide +kernel : blockEnd brokenSheet.toList 2 = .ok (some 22)))
  exact ⟨ho, ⟨comma, hcm, hco, hct 30 hco⟩, ⟨close, hcl, hc, (hca 22 hc).2⟩,
    by decide +kernel, hst.trans (by decide +kernel)⟩

end Polyview.Css
