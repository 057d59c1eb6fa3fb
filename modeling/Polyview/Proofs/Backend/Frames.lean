import Polyview.Backend.Lit
import Polyview.Backend.ReactMarkup
import Polyview.Backend.Svelte
import Polyview.Proofs.Template.Placement

/-! # The frames of targets

React markup has fragments with tags; Svelte and Lit write the children of a fragment alone. The markup of Lit stands in
template literals, so that it also ends where a literal or a substitution does. -/

namespace Polyview

open List Text

theorem isInfix_attributeList {a : String} {attributes : List String} (h : a ∈ attributes) :
    a.toList <:+: (attributeList attributes).toList := by
  have hs : (" " ++ a).toList <:+: (attributeList attributes).toList := by
    rw [attributeList, String.toList_join, flatMap_def]
    exact infix_of_mem_flatten (mem_map_of_mem (mem_map_of_mem h))
  refine List.IsInfix.trans ?_ hs
  rw [String.toList_append]
  exact (suffix_append _ _).isInfix

section

variable {f : Frame}

theorem Frame.opens_of_mem {sign more : String} (h : sign ∈ f.signs) : f.Opens (sign ++ more).toList :=
  ⟨sign, h, by simp⟩

theorem Frame.opens_braces (h : "\x7b" ∈ f.signs) (text : String) : f.Opens (braces text).toList := by
  rw [braces, String.append_assoc]
  exact Frame.opens_of_mem h

theorem Frame.writes_elementText (h : "<" ∈ f.signs) (tag : String) (attributes children : List String) :
    f.Opens (elementText tag attributes children).toList ∧
      f.Encloses (String.join children) (elementText tag attributes children) ∧
      ∀ a ∈ attributes, a.toList <:+: (elementText tag attributes children).toList := by
  refine ⟨?_, ⟨("<" ++ tag ++ attributeList attributes ++ ">").toList, ("<" ++ ("/" ++ tag ++ ">")).toList, ?_,
    Frame.opens_of_mem h⟩, fun a ha => (isInfix_attributeList ha).trans ⟨("<" ++ tag).toList,
    (">" ++ String.join children ++ "</" ++ tag ++ ">").toList, ?_⟩⟩
  · rw [elementText]
    simp only [String.append_assoc]
    exact Frame.opens_of_mem h
  · simp [elementText]
  · simp [elementText]

theorem Frame.writes_selfClosingText (h : "<" ∈ f.signs) (tag : String) (attributes : List String) :
    f.Opens (selfClosingText tag attributes).toList ∧
      ∀ a ∈ attributes, a.toList <:+: (selfClosingText tag attributes).toList := by
  refine ⟨?_, fun a ha => (isInfix_attributeList ha).trans ⟨("<" ++ tag).toList, " />".toList, ?_⟩⟩
  · rw [selfClosingText]
    simp only [String.append_assoc]
    exact Frame.opens_of_mem h
  · simp [selfClosingText]

end

/-! ### React -/

namespace React

/-- The frame of React markup. -/
def frame : Frame := ⟨["<", "\x7b"], id, true⟩

variable {c : Component}

theorem encloses_inFragment (markup : String) : frame.Encloses markup (inFragment markup) :=
  ⟨"<>".toList, ("<" ++ "/>").toList, by simp [inFragment], Frame.opens_of_mem (by decide)⟩

theorem isInfix_braces (text : String) : text.toList <:+: (braces text).toList :=
  ⟨"\x7b".toList, "\x7d".toList, by simp [braces]⟩

theorem writes_renderer : (renderer c).Writes frame where
  text h := yields_pure h
  expression h := by
    obtain rfl := yields_pure h
    exact Frame.opens_braces (by decide) _
  element h := by
    obtain rfl := yields_pure h
    exact Frame.writes_elementText (by decide) _ _ _
  selfClosing h := by
    obtain rfl := yields_pure h
    exact Frame.writes_selfClosingText (by decide) _ _
  fragment {_ children} h := by
    obtain rfl := yields_pure h
    refine .inl ⟨rfl, ?_, encloses_inFragment _⟩
    rw [inFragment, show "<>" = "<" ++ ">" from rfl]
    simp only [String.append_assoc]
    exact Frame.opens_of_mem (by decide)
  slot {parts _} h := by
    obtain rfl := yields_pure h
    constructor
    · rw [renderSlot]
      split <;> exact Frame.opens_braces (by decide) _
    · intro hf
      refine (encloses_inFragment _).of_isInfix ?_
      rw [renderSlot, isEmpty_eq_false_iff.mpr hf]
      refine List.IsInfix.trans ?_ (isInfix_braces _)
      rw [String.toList_append]
      exact (suffix_append _ _).isInfix
  conditional {parts _} h := by
    obtain rfl := yields_pure h
    refine ⟨Frame.opens_braces (by decide) _, (encloses_inFragment _).of_isInfix ?_, fun text ht => ?_⟩
    · unfold renderShow
      extract_lets fallback
      refine List.IsInfix.trans ?_ (isInfix_braces _)
      exact ⟨(parts.condition ++ " ? (").toList, (") : " ++ fallback).toList, by simp⟩
    · refine (encloses_inFragment _).of_isInfix ?_
      rw [renderShow, ht]
      refine List.IsInfix.trans ?_ (isInfix_braces _)
      exact ⟨(parts.condition ++ " ? (" ++ inFragment (String.join parts.body) ++ ") : (").toList, ")".toList, by simp⟩
  repetition {parts _} h := by
    obtain ⟨_, -, h⟩ := h.exists_of_bind
    obtain rfl := yields_pure h
    refine ⟨Frame.opens_braces (by decide) _, ?_⟩
    unfold renderEach
    extract_lets index key
    refine Frame.Encloses.of_isInfix ?_ (isInfix_braces _)
    exact ⟨(parts.list ++ ".map((" ++ parts.item ++ ", " ++ index ++ ") => (<Fragment key=" ++ braces key ++
      ">").toList, ("<" ++ "/Fragment>))").toList, by simp, Frame.opens_of_mem (by decide)⟩
  value {_ name markup _} h := by
    obtain rfl := yields_pure h
    refine ⟨?_, by rintro ⟨⟩⟩
    rw [renderAttr, bracedAttribute, String.toList_append]
    exact (isInfix_braces _).trans (suffix_append _ _).isInfix

end React

/-! ### Svelte -/

namespace Svelte

/-- The frame of Svelte markup. -/
def frame : Frame := ⟨["<", "\x7b"], id, false⟩

variable {c : Component}

theorem yields_lift {α : Type} {result : Except Error α} {value : α} (h : Yields (lift result : Hooked α) value) :
    result = .ok value := by
  obtain ⟨w, w', hr⟩ := h
  exact run_lift_eq_ok hr

theorem writes_renderer : (renderer c).Writes frame where
  text h := yields_pure h
  expression h := by
    obtain rfl := yields_pure h
    exact Frame.opens_braces (by decide) _
  element h := by
    obtain rfl := yields_pure h
    exact Frame.writes_elementText (by decide) _ _ _
  selfClosing h := by
    obtain rfl := yields_pure h
    exact Frame.writes_selfClosingText (by decide) _ _
  fragment h := .inr ⟨rfl, yields_pure h⟩
  slot {parts _} h := by
    obtain rfl := yields_pure h
    unfold renderSlot
    extract_lets name
    constructor
    · split
      all_goals
        rw [show "<slot" = "<" ++ "slot" from rfl]
        simp only [String.append_assoc]
        exact Frame.opens_of_mem (by decide)
    · intro hf
      rw [if_neg (by simpa using hf)]
      exact ⟨("<slot" ++ name ++ ">").toList, ("<" ++ "/slot>").toList, by simp, Frame.opens_of_mem (by decide)⟩
  conditional {parts _} h := by
    obtain rfl := yields_pure h
    unfold renderShow
    extract_lets fallback
    refine ⟨?_, ?_, fun text ht => ?_⟩
    · simp only [String.append_assoc]
      rw [String.toList_append]
      exact (Frame.opens_braces (by decide) _).append _
    · cases hf : parts.fallback with
      | none =>
        refine ⟨(braces ("#if " ++ parts.condition)).toList, (braces "/if").toList, ?_,
          Frame.opens_braces (by decide) _⟩
        simp [fallback, hf]
      | some text =>
        refine ⟨(braces ("#if " ++ parts.condition)).toList,
          (braces ":else").toList ++ (text ++ braces "/if").toList, ?_, (Frame.opens_braces (by decide) _).append _⟩
        simp [fallback, hf]
    · refine ⟨(braces ("#if " ++ parts.condition) ++ String.join parts.body ++ braces ":else").toList,
        (braces "/if").toList, ?_, Frame.opens_braces (by decide) _⟩
      simp [fallback, ht]
  repetition {parts _} h := by
    obtain rfl := yields_pure h
    unfold renderEach
    extract_lets index key
    constructor
    · simp only [String.append_assoc]
      rw [String.toList_append]
      exact (Frame.opens_braces (by decide) _).append _
    · exact ⟨(braces ("#each " ++ parts.list ++ " as " ++ parts.item ++ index ++ key)).toList, (braces "/each").toList,
        by simp, Frame.opens_braces (by decide) _⟩
  value {_ name markup out} h := by
    have hfa : Yields (lift (renderAttr (htmlAttributeName name) (.template markup)) : Hooked String) out := h
    cases yields_lift hfa

end Svelte

/-! ### Lit -/

namespace Lit

/-- The frame of Lit markup. -/
def frame : Frame := ⟨["<", "`", "$\x7b"], escapeTemplate, false⟩

variable {c : Component}

theorem opens_substitution (code : String) : frame.Opens (substitution code).toList := by
  rw [substitution, braces, ← String.append_assoc, ← String.append_assoc, String.append_assoc]
  exact Frame.opens_of_mem (by decide)

theorem isInfix_substitution (code : String) : code.toList <:+: (substitution code).toList :=
  ⟨"$\x7b".toList, "\x7d".toList, by simp [substitution, braces]⟩

theorem encloses_htmlLiteral (markup : String) : frame.Encloses markup (htmlLiteral markup) :=
  ⟨"html`".toList, ("`" ++ "").toList, by simp [htmlLiteral], Frame.opens_of_mem (by decide)⟩

theorem eq_of_renderShow {parts : ShowParts} {out : String} (h : Yields (renderShow parts) out) :
    ∃ fallback, out = substitution
        (parts.condition ++ " ? " ++ htmlLiteral (String.join parts.body) ++ " : " ++ fallback) ∧
      ∀ text, parts.fallback = some text → fallback = htmlLiteral text := by
  unfold renderShow at h
  extract_lets finish at h
  split at h
  · next text ht =>
    refine ⟨_, yields_pure h, fun other ho => ?_⟩
    cases ht.symm.trans ho
    rfl
  · next hn =>
    obtain ⟨_, -, h⟩ := h.exists_of_bind
    refine ⟨_, yields_pure h, fun other ho => ?_⟩
    cases hn.symm.trans ho

theorem encloses_renderShow {parts : ShowParts} {out : String} (h : Yields (renderShow parts) out) :
    frame.Opens out.toList ∧ frame.Encloses (String.join parts.body) out ∧
      ∀ text, parts.fallback = some text → frame.Encloses text out := by
  obtain ⟨fallback, rfl, hf⟩ := eq_of_renderShow h
  refine ⟨opens_substitution _, (encloses_htmlLiteral _).of_isInfix ?_, fun text ht => ?_⟩
  · exact List.IsInfix.trans ⟨(parts.condition ++ " ? ").toList, (" : " ++ fallback).toList, by simp⟩
      (isInfix_substitution _)
  · obtain rfl := hf text ht
    refine (encloses_htmlLiteral _).of_isInfix (List.IsInfix.trans ?_ (isInfix_substitution _))
    rw [String.toList_append]
    exact (suffix_append _ _).isInfix

theorem encloses_renderEach {parts : EachParts} {out : String} (h : Yields (renderEach parts) out) :
    frame.Opens out.toList ∧ frame.Encloses parts.body out := by
  unfold renderEach at h
  extract_lets params at h
  split at h
  · next key hk =>
    obtain ⟨_, -, h⟩ := h.exists_of_bind
    obtain rfl := yields_pure h
    refine ⟨opens_substitution _, (encloses_htmlLiteral _).of_isInfix (List.IsInfix.trans ?_ (isInfix_substitution _))⟩
    exact ⟨("repeat(" ++ parts.list ++ ", " ++ params ++ " => " ++ key ++ ", " ++ params ++ " => ").toList, ")".toList,
      by simp⟩
  · obtain rfl := yields_pure h
    refine ⟨opens_substitution _, (encloses_htmlLiteral _).of_isInfix (List.IsInfix.trans ?_ (isInfix_substitution _))⟩
    exact ⟨(parts.list ++ ".map(" ++ params ++ " => ").toList, ")".toList, by simp⟩

theorem writes_renderer : (renderer c).Writes frame where
  text h := yields_pure h
  expression h := by
    obtain rfl := yields_pure h
    exact opens_substitution _
  element h := by
    obtain rfl := yields_pure h
    exact Frame.writes_elementText (by decide) _ _ _
  selfClosing {tag _ attributes} h := by
    obtain rfl := yields_pure h
    unfold renderSelfClosing
    split
    · constructor
      · simp only [String.append_assoc]
        exact Frame.opens_of_mem (by decide)
      · intro a ha
        exact (isInfix_attributeList ha).trans ⟨("<" ++ tag).toList, ">".toList, by simp⟩
    · obtain ⟨ho, -, hat⟩ := Frame.writes_elementText (f := frame) (by decide) (elementName tag) attributes []
      exact ⟨ho, hat⟩
  fragment h := .inr ⟨rfl, yields_pure h⟩
  slot {parts _} h := by
    obtain rfl := yields_pure h
    unfold renderSlot
    extract_lets name
    constructor
    · rw [show "<slot" = "<" ++ "slot" from rfl]
      simp only [String.append_assoc]
      exact Frame.opens_of_mem (by decide)
    · intro _
      exact ⟨("<slot" ++ name ++ ">").toList, ("<" ++ "/slot>").toList, by simp, Frame.opens_of_mem (by decide)⟩
  conditional := encloses_renderShow
  repetition := encloses_renderEach
  value {_ name markup _} h := by
    obtain rfl := yields_pure h
    have he : frame.Encloses markup
        ("." ++ htmlAttributeName name ++ "=" ++ substitution (htmlLiteral markup)) := by
      refine (encloses_htmlLiteral _).of_isInfix ((isInfix_substitution _).trans ?_)
      rw [String.toList_append]
      exact (suffix_append _ _).isInfix
    exact ⟨he.isInfix, fun _ => he⟩

end Lit

end Polyview
