import Polyview.Member.Update
import Polyview.Proofs.Source.Offset

/-! # Parameters of updaters

An updater has the member's name as its parameter, unless the update refers to a variable of that name. Then a longer
name is made up. It is lengthened until neither the references nor the text have it, and there are steps enough for
that (`freshName_spec`). The text has a name if the name is one of its longest runs of characters of names
(`mentions_iff`). -/

namespace Polyview

open List

variable {text : List Char} {names : List String}

theorem length_le_of_mentionsFrom {name : List Char} {before : Option Char} {skip : ℕ}
    (h : mentionsFrom name before skip text) : name.length ≤ text.length := by
  fun_induction mentionsFrom name before skip text with
  | case1 => cases h
  | case2 before skip c cs ih => exact Nat.le_succ_of_le (ih h)
  | case3 before c cs hp => exact (List.isPrefixOf_iff_prefix.mp hp).length_le
  | case4 before c cs hp ih => exact Nat.le_succ_of_le (ih h)

/-- The names of at least some length. -/
def longNames (names : List String) (n : ℕ) : ℕ := names.countP fun name => n ≤ name.toList.length

theorem longNames_succ_le (names : List String) (n : ℕ) : longNames names (n + 1) ≤ longNames names n := by
  refine countP_mono_left fun name _ h => ?_
  simp only [decide_eq_true_eq] at h ⊢
  omega

theorem longNames_succ_lt {name : List Char} (h : String.ofList name ∈ names) :
    longNames names (name.length + 1) < longNames names name.length := by
  obtain ⟨before, after, rfl⟩ := append_of_mem h
  have hb := longNames_succ_le before name.length
  have ha := longNames_succ_le after name.length
  simp only [longNames, countP_append, countP_cons, String.toList_ofList] at hb ha ⊢
  simp only [Nat.le_refl, Nat.not_succ_le_self, decide_true, decide_false, if_true]
  simp only [Bool.false_eq_true, if_false]
  omega

/-- A name that cannot be a parameter: it is referred to, or the text mentions it. -/
def IsTaken (names : List String) (text name : List Char) : Prop :=
  String.ofList name ∈ names ∨ mentions text name = true

/-- There are steps enough to find a name: each step passes a name that is referred to, or one that is no longer than
the text that mentions it. The first name that is not taken is found. -/
theorem freshName_spec {n : ℕ} {name : List Char}
    (h : longNames names name.length + (text.length + 1 - name.length) ≤ n) :
    ∃ k, freshName names text n name = name ++ List.replicate k '_' ∧
      ¬ IsTaken names text (name ++ List.replicate k '_') ∧
      ∀ j < k, IsTaken names text (name ++ List.replicate j '_') := by
  have hl (name : List Char) (ht : IsTaken names text name) :
      longNames names (name.length + 1) + (text.length + 1 - (name.length + 1)) <
        longNames names name.length + (text.length + 1 - name.length) := by
    have hle := longNames_succ_le names name.length
    rcases ht with hme | hm
    · have hlt := longNames_succ_lt hme
      omega
    · have hln : name.length ≤ text.length := length_le_of_mentionsFrom hm
      omega
  induction n generalizing name with
  | zero =>
    refine ⟨0, by simp [freshName], fun ht => ?_, fun j hj => absurd hj (Nat.not_lt_zero j)⟩
    rw [replicate_zero, append_nil] at ht
    have := hl name ht
    omega
  | succ n ih =>
    have hu : (names.contains (String.ofList name) || mentions text name) = true ↔ IsTaken names text name := by
      rw [Bool.or_eq_true, contains_iff_mem, IsTaken]
    rw [freshName]
    split
    · next hte =>
      have ht := hu.mp hte
      have hlt := hl name ht
      have he : longNames names (name ++ ['_']).length + (text.length + 1 - (name ++ ['_']).length) ≤ n := by
        rw [length_append, length_singleton]
        omega
      obtain ⟨k, hn, hf, ha⟩ := ih he
      have hg (j : ℕ) : name ++ ['_'] ++ List.replicate j '_' = name ++ List.replicate (j + 1) '_' := by
        rw [replicate_succ, append_assoc, singleton_append]
      refine ⟨k + 1, by rw [hn, hg], by rwa [← hg], fun j hj => ?_⟩
      cases j with
      | zero => simpa using ht
      | succ j => exact hg j ▸ ha j (Nat.lt_of_succ_lt_succ hj)
    · next hte =>
      refine ⟨0, by simp, ?_, fun j hj => absurd hj (Nat.not_lt_zero j)⟩
      rw [replicate_zero, append_nil]
      exact fun ht => hte (hu.mpr ht)

/-- The name that is lengthened for a member. -/
def prevName (member : String) : List Char := "prev".toList ++ Text.capitalizeChars member.toList

/-- If the update refers to the member's name, the parameter is the first longer name that is not taken. -/
theorem updaterParam_of_mem {member : String} (text : List Char) (h : member ∈ names) :
    ∃ k, updaterParam member names text = String.ofList (prevName member ++ List.replicate k '_') ∧
      ¬ IsTaken names text (prevName member ++ List.replicate k '_') ∧
      ∀ j < k, IsTaken names text (prevName member ++ List.replicate j '_') := by
  have hl : longNames names (prevName member).length ≤ names.length := countP_le_length
  have he : longNames names (prevName member).length + (text.length + 1 - (prevName member).length) ≤
      names.length + text.length + 1 := by omega
  obtain ⟨k, hn, hf, ha⟩ := freshName_spec he
  refine ⟨k, ?_, hf, ha⟩
  rw [updaterParam, if_pos (contains_iff_mem.mpr h), ← hn]
  rfl

/-- The parameter of an updater is none of the names that the update refers to. -/
theorem updaterParam_notMem (member : String) (names : List String) (text : List Char) :
    updaterParam member names text ∉ names := by
  by_cases hm : member ∈ names
  · obtain ⟨k, hn, hf, -⟩ := updaterParam_of_mem text hm
    rw [hn]
    exact fun h => hf (.inl h)
  · rwa [updaterParam, if_neg (by simpa using hm)]

/-! ### Words of a text -/

/-- Characters make up a name. -/
def IsName (name : List Char) : Prop := name ≠ [] ∧ ∀ c ∈ name, isNameChar c = true

/-- A name stands in a text that follows a character, with no character of a name on either side. -/
def StandsIn (before : Option Char) (text name : List Char) : Prop :=
  ∃ front back, text = front ++ (name ++ back) ∧ (∀ c ∈ front.getLast?.or before, isNameChar c = false) ∧
    ∀ c ∈ back.head?, isNameChar c = false

/-- A name is one of the longest runs of characters of names in a text. -/
def IsRunOf (text name : List Char) : Prop := IsName name ∧ StandsIn none text name

variable {name : List Char} {before : Option Char} {c : Char} {cs : List Char}

/-- A name stands at the start of a text, or behind its first character. -/
theorem standsIn_cons : StandsIn before (c :: cs) name ↔
    (∃ back, c :: cs = name ++ back ∧ (∀ d ∈ before, isNameChar d = false) ∧ ∀ d ∈ back.head?, isNameChar d = false) ∨
      StandsIn (some c) cs name := by
  constructor
  · rintro ⟨_ | ⟨d, front⟩, back, heq, hbe, hb⟩
    · exact .inl ⟨back, heq, by simpa using hbe, hb⟩
    · cases heq
      refine .inr ⟨front, back, rfl, ?_, hb⟩
      cases hl : front.getLast? <;> simpa [getLast?_cons, hl] using hbe
  · rintro (⟨back, heq, hbe, hb⟩ | ⟨front, back, rfl, hbe, hb⟩)
    · exact ⟨[], back, heq, by simpa using hbe, hb⟩
    · refine ⟨c :: front, back, rfl, ?_, hb⟩
      cases hl : front.getLast? <;> simpa [getLast?_cons, hl] using hbe

/-- Looking for occurrences without overlaps finds the names that stand in a text. What an occurrence passes over are
characters of names, and no name stands behind such a character. -/
theorem mentionsFrom_iff (hn : IsName name) {skip : ℕ}
    (hs : ∀ c ∈ text.take skip, isNameChar c) (hbe : skip ≠ 0 → ∃ c ∈ before, isNameChar c) :
    mentionsFrom name before skip text ↔ StandsIn before text name := by
  fun_induction mentionsFrom name before skip text with
  | case1 before skip =>
    refine iff_of_false Bool.false_ne_true ?_
    rintro ⟨front, back, heq, -⟩
    exact hn.1 (append_eq_nil_iff.mp (append_eq_nil_iff.mp heq.symm).2).1
  | case2 before skip c cs ih =>
    rw [take_succ_cons, forall_mem_cons] at hs
    obtain ⟨d, hd, hch⟩ := hbe (Nat.succ_ne_zero skip)
    rw [ih hs.2 fun _ => ⟨c, rfl, hs.1⟩, standsIn_cons, or_iff_right]
    rintro ⟨-, -, hp, -⟩
    simp [hp d hd] at hch
  | case3 before c cs hst ih =>
    obtain ⟨back, hb⟩ := isPrefixOf_iff_prefix.mp hst
    obtain ⟨more, rfl⟩ : ∃ more, name = c :: more := by
      cases name with
      | nil => exact absurd rfl hn.1
      | cons d more => exact ⟨more, by rw [(List.cons.inj hb).1]⟩
    obtain rfl : cs = more ++ back := (List.cons.inj hb).2.symm
    have hc := forall_mem_cons.mp hn.2
    have hr := ih (by simpa using hc.2) fun _ => ⟨c, rfl, hc.1⟩
    have hdr : (c :: (more ++ back)).drop (c :: more).length = back := by simp
    have hbd : (!(before.map isNameChar).getD false && !(back.head?.map isNameChar).getD false) = true ↔
        (∀ d ∈ before, isNameChar d = false) ∧ ∀ d ∈ back.head?, isNameChar d = false := by
      cases before <;> cases back <;> simp
    rw [Bool.or_eq_true, hr, hdr, hbd, standsIn_cons]
    refine or_congr_left ⟨fun h => ⟨back, rfl, h⟩, ?_⟩
    rintro ⟨other, heq, h⟩
    rw [← cons_append] at heq
    rwa [append_cancel_left heq]
  | case4 before c cs hst ih =>
    rw [ih (by simp) fun h => absurd rfl h, standsIn_cons, or_iff_right]
    rintro ⟨back, heq, -⟩
    exact hst (List.isPrefixOf_iff_prefix.mpr ⟨back, heq.symm⟩)

/-- **A text mentions the names that are runs of it**, and no others. -/
theorem mentions_iff (hn : IsName name) (text : List Char) : mentions text name ↔ IsRunOf text name := by
  rw [mentions, mentionsFrom_iff hn (by simp) fun h => absurd rfl h, IsRunOf, and_iff_right hn]

/-- **The parameter of an updater is fresh.** It is none of the names that the update refers to. If it is not the name of
the member, it is the first longer name that is neither referred to nor mentioned, and no run of the text is this name. -/
theorem updater_parameter_fresh (member : String) (names : List String) (text : List Char) :
    updaterParam member names text ∉ names ∧
      (updaterParam member names text ≠ member → ¬ IsRunOf text (updaterParam member names text).toList ∧
        ∃ k, updaterParam member names text = String.ofList (prevName member ++ List.replicate k '_') ∧
          ¬ IsTaken names text (prevName member ++ List.replicate k '_') ∧
          ∀ j < k, IsTaken names text (prevName member ++ List.replicate j '_')) ∧
      ∀ name, IsName name → (mentions text name = true ↔ IsRunOf text name) := by
  refine ⟨updaterParam_notMem member names text, fun ho => ?_, fun name hn => mentions_iff hn text⟩
  have hm : member ∈ names := by
    by_contra hno
    exact ho (by rw [updaterParam, if_neg (by simpa using hno)])
  obtain ⟨k, hn, hf, ha⟩ := updaterParam_of_mem text hm
  refine ⟨fun hr => hf (.inr ?_), k, hn, hf, ha⟩
  rw [hn, String.toList_ofList] at hr
  exact (mentions_iff hr.1 text).mpr hr

/-- The first name is referred to and the second one is mentioned, so that the third is taken. -/
theorem updater_parameter_fresh_third : updaterParam "n" ["n", "prevN"] "prevN_+prevN__x".toList = "prevN__" ∧
      ¬ IsRunOf "prevN_+prevN__x".toList "prevN__".toList := by
  have hn : updaterParam "n" ["n", "prevN"] "prevN_+prevN__x".toList = "prevN__" := by decide +kernel
  have hf := (updater_parameter_fresh "n" ["n", "prevN"] "prevN_+prevN__x".toList).2.1 (by rw [hn]; decide)
  rw [hn] at hf
  exact ⟨hn, hf.1⟩

end Polyview
