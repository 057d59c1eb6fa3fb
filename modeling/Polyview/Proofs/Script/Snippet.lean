import Polyview.Script.Snippet

/-! # Snippets that have been read -/

namespace Polyview.Script

-- whether a run on a certain input gives a certain result can be decided
instance decidableEqExcept {ε α : Type} [DecidableEq ε] [DecidableEq α] : DecidableEq (Except ε α)
  | .error e, .error e' => decidable_of_iff (e = e') (by simp)
  | .ok a, .ok b => decidable_of_iff (a = b) (by simp)
  | .error _, .ok _ => isFalse nofun
  | .ok _, .error _ => isFalse nofun

theorem Snippet.parse_eq_ok {code : String} {kind : SnippetKind} {snippet : Snippet} :
    Snippet.parse code kind = .ok snippet ↔ Snippet.parse? code kind = some snippet := by
  unfold Snippet.parse
  split
  · next found hf => simp [hf]
  · next hn => simp [hn]

/-- A test on the snippet that a code is read as holds of some snippet that it is read as. -/
theorem Snippet.exists_parse_of_any {code : String} {kind : SnippetKind} {test : Snippet → Bool}
    (h : (Snippet.parse? code kind).any test) :
    ∃ snippet, Snippet.parse code kind = .ok snippet ∧ test snippet := by
  obtain ⟨snippet, hp, ht⟩ := (Option.any_eq_true _ _).mp h
  exact ⟨snippet, Snippet.parse_eq_ok.mpr hp, ht⟩

end Polyview.Script
