import Polyview.Proofs.Css.Stretch
import Polyview.Source.Span

/-! # Scanning a stylesheet byte by byte

A stylesheet is scanned as a list of atoms. The same scan can be made over the bytes of its UTF-8 form, with indices, and
with a count of open brackets that must not fall below zero. Every read, cut and count of that scan is checked here: what
would go wrong is a fault.

* `Ahead`: what the bytes from an index on are. An index that an escape puts inside a character is one of its bytes
  behind the first, and these mean nothing (`tail_inert`), so the scan comes out of the character again.
* `skipString_eq`, `skipComment_eq`: strings and comments are skipped as they are sealed into an atom.
* `walk_eq`: the scan over bytes visits the signs among the atoms, at their offsets.
* `findTopLevel_eq`, `blockEnd_eq`: the two searches find what the splits of atoms find, without a fault. -/

namespace Polyview.Css

open List Text

/-! ### Bytes -/

/-- The UTF-8 form of a text. -/
def utf8 (text : List Char) : List UInt8 := text.flatMap String.utf8EncodeChar

/-- The byte of an ASCII character. -/
def byteOf (c : Char) : UInt8 := UInt8.ofNat c.toNat

/-- What can go wrong in a scan. -/
inductive Fault
  /-- A byte is read out of range. -/
  | index
  /-- A text is cut out of range, or inside a character. -/
  | cut
  /-- A count falls below zero. -/
  | underflow
  /-- More steps are made than there can be. -/
  | unfinished
deriving DecidableEq, Repr

/-- The byte at an index. -/
def byteAt (bytes : List UInt8) (i : ℕ) : Except Fault UInt8 :=
  match bytes[i]? with
  | some byte => .ok byte
  | none => .error .index

def oneLess : ℕ → Except Fault ℕ
  | 0 => .error .underflow
  | n + 1 => .ok n

/-- The text between two indices. -/
def cut (text : List Char) (start stop : ℕ) : Except Fault (List Char) :=
  if start ≤ stop then
    match (Span.mk start stop).text? text with
    | some part => .ok part
    | none => .error .cut
  else .error .cut

/-- The index of the first of two bytes that follow one another. -/
def findPair? (first second : UInt8) : List UInt8 → Option ℕ
  | a :: b :: rest => if a = first ∧ b = second then some 0 else (findPair? first second (b :: rest)).map (· + 1)
  | _ => none

/-! ### Scans -/

section

variable (bytes : List UInt8)

/-- Goes on in a string; a backslash counts for itself and the byte behind it. -/
def skipFrom (quote : UInt8) : ℕ → ℕ → Except Fault ℕ
  | 0, _ => .error .unfinished
  | fuel + 1, i =>
    if i < bytes.length then do
      let byte ← byteAt bytes i
      if byte = byteOf '\\' then skipFrom quote fuel (i + 2)
      else if byte = quote then return i + 1
      else skipFrom quote fuel (i + 1)
    else return bytes.length

/-- The index behind a string. -/
def skipString (start : ℕ) : Except Fault ℕ := do
  let quote ← byteAt bytes start
  skipFrom bytes quote (bytes.length + 1) (start + 1)

/-- The index behind a comment. -/
def skipComment (start : ℕ) : Except Fault ℕ :=
  if start + 2 ≤ bytes.length then
    match findPair? (byteOf '*') (byteOf '/') (bytes.drop (start + 2)) with
    | some p => .ok (start + 2 + p + 2)
    | none => .ok bytes.length
  else .error .index

/-- Ends a scan at an index, or goes on with a depth. -/
def resume (i : ℕ) (go : ℕ → Except Fault (Option ℕ)) : Option ℕ → Except Fault (Option ℕ)
  | none => .ok (some i)
  | some depth => go depth

/-- Visits the bytes outside strings and comments. A visit ends the scan, or tells the depth with which it goes on. -/
def walk (visit : ℕ → UInt8 → Except Fault (Option ℕ)) : ℕ → ℕ → ℕ → Except Fault (Option ℕ)
  | 0, _, _ => .error .unfinished
  | fuel + 1, depth, i =>
    if i < bytes.length then do
      let byte ← byteAt bytes i
      if byte = byteOf '"' ∨ byte = byteOf '\'' then
        let next ← skipString bytes i
        walk visit fuel depth next
      else if byte = byteOf '/' ∧ bytes[i + 1]? = some (byteOf '*') then
        let next ← skipComment bytes i
        walk visit fuel depth next
      else
        let next ← visit depth byte
        resume i (fun depth => walk visit fuel depth (i + 1)) next
    else return none

end

/-- Looks for bytes outside brackets. A closing bracket too many does not count. -/
def visitTop (targets : List UInt8) (depth : ℕ) (byte : UInt8) : Except Fault (Option ℕ) :=
  if depth = 0 ∧ byte ∈ targets then .ok none
  else if byte = byteOf '(' ∨ byte = byteOf '[' ∨ byte = byteOf '\x7b' then .ok (some (depth + 1))
  else if byte = byteOf ')' ∨ byte = byteOf ']' ∨ byte = byteOf '\x7d' then .ok (some (depth - 1))
  else .ok (some depth)

/-- Looks for the brace that closes the first one. -/
def visitBlock (depth : ℕ) (byte : UInt8) : Except Fault (Option ℕ) :=
  if byte = byteOf '\x7b' then .ok (some (depth + 1))
  else if byte = byteOf '\x7d' then do
    let depth ← oneLess depth
    return if depth = 0 then none else some depth
  else .ok (some depth)

/-- The index of the first of the characters `stops` outside strings, comments and brackets. -/
def findTopLevel (text stops : List Char) : Except Fault (Option ℕ) :=
  walk (utf8 text) (visitTop (stops.map byteOf)) (byteLength text + 1) 0 0

/-- The index of the brace that closes the block that is opened at an index. -/
def blockEnd (text : List Char) (opening : ℕ) : Except Fault (Option ℕ) :=
  walk (utf8 text) visitBlock (byteLength text + 1) 0 opening

/-! ### The bytes of a character -/

section

variable {c d : Char} {b : UInt8} {text more : List Char}

@[simp]
theorem utf8_cons (c : Char) (text : List Char) : utf8 (c :: text) = String.utf8EncodeChar c ++ utf8 text := rfl

theorem utf8_append (text more : List Char) : utf8 (text ++ more) = utf8 text ++ utf8 more := by
  simp [utf8]

@[simp]
theorem length_utf8 (text : List Char) : (utf8 text).length = byteLength text := by
  induction text with
  | nil => rfl
  | cons c text ih => simp [ih]

theorem utf8EncodeChar_of_ascii (h : c.toNat < 128) : String.utf8EncodeChar c = [byteOf c] := by
  have hl : c.val.toNat ≤ 127 := Nat.le_of_lt_succ h
  simp only [String.utf8EncodeChar, hl, if_true, byteOf]
  rfl

/-- The bytes of a character that is not ASCII are none of ASCII. -/
theorem le_of_mem_utf8EncodeChar (h : 128 ≤ c.toNat) (hb : b ∈ String.utf8EncodeChar c) : 128 ≤ b.toNat := by
  have hl : ¬ c.val.toNat ≤ 127 := by simpa using Nat.lt_of_succ_le h
  simp only [String.utf8EncodeChar, hl, if_false] at hb
  split at hb
  · simp only [mem_cons, not_mem_nil, or_false] at hb
    rcases hb with rfl | rfl <;> simp only [UInt8.toNat_ofNat'] <;> omega
  · split at hb
    · simp only [mem_cons, not_mem_nil, or_false] at hb
      rcases hb with rfl | rfl | rfl <;> simp only [UInt8.toNat_ofNat'] <;> omega
    · simp only [mem_cons, not_mem_nil, or_false] at hb
      rcases hb with rfl | rfl | rfl | rfl <;> simp only [UInt8.toNat_ofNat'] <;> omega

theorem toNat_byteOf (h : c.toNat < 128) : (byteOf c).toNat = c.toNat := by
  rw [byteOf, UInt8.toNat_ofNat']
  omega

theorem byteOf_inj (hc : c.toNat < 128) (hd : d.toNat < 128) : byteOf c = byteOf d ↔ c = d := by
  rw [← UInt8.toNat_inj, toNat_byteOf hc, toNat_byteOf hd, Char.toNat_inj]

theorem ne_byteOf (hb : 128 ≤ b.toNat) (hd : d.toNat < 128) : b ≠ byteOf d := by
  rintro rfl
  rw [toNat_byteOf hd] at hb
  omega

/-- A byte of a character is that of an ASCII character only if they are the same. -/
theorem ne_byteOf_of_mem (hn : c ≠ d) (hd : d.toNat < 128) (hb : b ∈ String.utf8EncodeChar c) : b ≠ byteOf d := by
  rcases Nat.lt_or_ge c.toNat 128 with hc | hc
  · rw [utf8EncodeChar_of_ascii hc, mem_singleton] at hb
    rw [hb, Ne, byteOf_inj hc hd]
    exact hn
  · exact ne_byteOf (le_of_mem_utf8EncodeChar hc hb) hd

/-- The bytes of a character behind its first one are none of ASCII. -/
theorem tail_inert (hb : b ∈ (String.utf8EncodeChar c).tail) : 128 ≤ b.toNat := by
  rcases Nat.lt_or_ge c.toNat 128 with hc | hc
  · rw [utf8EncodeChar_of_ascii hc] at hb
    cases hb
  · exact le_of_mem_utf8EncodeChar hc (mem_of_mem_tail hb)

theorem utf8EncodeChar_ne_nil (c : Char) : String.utf8EncodeChar c ≠ [] := by
  intro h
  have := c.utf8Size_pos
  rw [← String.length_utf8EncodeChar, h] at this
  cases this

end

/-! ### Positions -/

/-- What the bytes from an index on are. -/
def Ahead (bytes : List UInt8) (i : ℕ) (rest : List UInt8) : Prop :=
  ∃ before, bytes = before ++ rest ∧ before.length = i

section

variable {bytes rest more : List UInt8} {b : UInt8} {i : ℕ}

theorem Ahead.skip (h : Ahead bytes i (more ++ rest)) : Ahead bytes (i + more.length) rest := by
  obtain ⟨before, rfl, rfl⟩ := h
  exact ⟨before ++ more, by simp, by simp⟩

theorem Ahead.step (h : Ahead bytes i (b :: rest)) : Ahead bytes (i + 1) rest :=
  Ahead.skip (show Ahead bytes i ([b] ++ rest) from h)

theorem Ahead.byteAt_eq (h : Ahead bytes i (b :: rest)) : byteAt bytes i = .ok b := by
  obtain ⟨before, rfl, rfl⟩ := h
  simp [byteAt]

theorem Ahead.length_eq (h : Ahead bytes i rest) : bytes.length = i + rest.length := by
  obtain ⟨before, rfl, rfl⟩ := h
  simp

theorem Ahead.drop_eq (h : Ahead bytes i rest) : bytes.drop i = rest := by
  obtain ⟨before, rfl, rfl⟩ := h
  simp

theorem Ahead.head?_eq (h : Ahead bytes i rest) : bytes[i]? = rest.head? := by
  rw [← h.drop_eq, head?_drop]

theorem Ahead.lt_length (h : Ahead bytes i (b :: rest)) : i < bytes.length := by
  rw [h.length_eq, length_cons]
  omega

theorem ahead_utf8 (before text : List Char) : Ahead (utf8 (before ++ text)) (byteLength before) (utf8 text) :=
  ⟨utf8 before, utf8_append .., length_utf8 _⟩

end

/-! ### Strings -/

section

variable {bytes : List UInt8} {quote : Char} {i fuel : ℕ}

/-- Bytes that are neither a backslash nor the quote are passed over one by one. -/
theorem skipFrom_inert {inert rest : List UInt8} {q : UInt8} (h : Ahead bytes i (inert ++ rest))
    (hi : ∀ b ∈ inert, b ≠ byteOf '\\' ∧ b ≠ q) (fuel : ℕ) :
    skipFrom bytes q (fuel + inert.length) i = skipFrom bytes q fuel (i + inert.length) := by
  induction inert generalizing i with
  | nil => rfl
  | cons b inert ih =>
    obtain ⟨⟨he, hq⟩, hi⟩ := forall_mem_cons.mp hi
    rw [length_cons, ← Nat.add_assoc, skipFrom, if_pos h.lt_length, h.byteAt_eq]
    refine Eq.trans ?_ ((ih h.step hi).trans (by rw [Nat.add_right_comm, Nat.add_assoc]))
    simp only [bind, Except.bind, he, hq, if_false]

/-- **A string** is skipped as far as it is sealed. Behind a backslash, the index is one byte ahead. -/
theorem skipFrom_scan (hq : quote.toNat < 128) (escaped : Bool) (opened cs : List Char)
    (h : Ahead bytes i (utf8 cs)) (hf : bytes.length - i < fuel) : ∃ text rest, cs = text ++ rest ∧
      scan (.quoted quote escaped) opened cs = .sealed (opened.reverse ++ text) :: atomsOf rest ∧
      skipFrom bytes (byteOf quote) fuel (if escaped then i + 1 else i) = .ok (i + byteLength text) := by
  induction cs generalizing i fuel escaped opened with
  | nil =>
    have hle : bytes.length = i := h.length_eq
    obtain ⟨fuel, rfl⟩ := Nat.exists_eq_succ_of_ne_zero (Nat.ne_of_gt (Nat.zero_lt_of_lt hf))
    refine ⟨[], [], rfl, by simp [scan, atomsOf], ?_⟩
    rw [skipFrom, if_neg (by split <;> omega), hle]
    rfl
  | cons c cs ih =>
    obtain ⟨first, tail, hby⟩ := exists_cons_of_ne_nil (utf8EncodeChar_ne_nil c)
    have hsi : c.utf8Size = tail.length + 1 := by rw [← String.length_utf8EncodeChar, hby, length_cons]
    rw [utf8_cons] at h
    have hle : bytes.length = i + (c.utf8Size + byteLength cs) := by simpa using h.length_eq
    have hn : Ahead bytes (i + c.utf8Size) (utf8 cs) := by
      rw [← String.length_utf8EncodeChar]
      exact h.skip
    cases escaped with
    | true =>
      -- the bytes behind the first one are left over, and mean nothing
      obtain ⟨fuel, rfl⟩ : ∃ less, fuel = less + tail.length := ⟨fuel - tail.length, by omega⟩
      obtain ⟨text, rest, rfl, hs, hsk⟩ := ih false (c :: opened) hn
        (show bytes.length - (i + c.utf8Size) < fuel by omega)
      refine ⟨c :: text, rest, rfl, by simpa [scan] using hs, ?_⟩
      rw [hby, cons_append] at h
      have hi : ∀ b ∈ tail, b ≠ byteOf '\\' ∧ b ≠ byteOf quote := by
        intro b hb
        have hl : 128 ≤ b.toNat := tail_inert (c := c) (by rw [hby]; exact hb)
        exact ⟨ne_byteOf hl (by decide), ne_byteOf hl hq⟩
      rw [if_pos rfl, skipFrom_inert h.step hi, show i + 1 + tail.length = i + c.utf8Size by omega]
      simpa [Nat.add_assoc] using hsk
    | false =>
      by_cases he : c = '\\'
      · subst he
        obtain ⟨fuel, rfl⟩ := Nat.exists_eq_succ_of_ne_zero (Nat.ne_of_gt (Nat.zero_lt_of_lt hf))
        have ho : ('\\').utf8Size = 1 := rfl
        obtain ⟨text, rest, rfl, hs, hsk⟩ := ih true ('\\' :: opened) hn
          (show bytes.length - (i + ('\\').utf8Size) < fuel by omega)
        refine ⟨'\\' :: text, rest, rfl, by simpa [scan] using hs, ?_⟩
        have hfs : Ahead bytes i (byteOf '\\' :: utf8 (text ++ rest)) := h
        rw [if_neg (by decide), skipFrom, if_pos hfs.lt_length, hfs.byteAt_eq]
        simpa [bind, Except.bind, ho, Nat.add_assoc] using hsk
      · by_cases hc : c = quote
        · subst hc
          obtain ⟨fuel, rfl⟩ := Nat.exists_eq_succ_of_ne_zero (Nat.ne_of_gt (Nat.zero_lt_of_lt hf))
          refine ⟨[c], cs, rfl, by simp [scan, he, atomsOf], ?_⟩
          rw [utf8EncodeChar_of_ascii hq] at h
          have hne : byteOf c ≠ byteOf '\\' := by rwa [Ne, byteOf_inj hq (by decide)]
          have ho : c.utf8Size = 1 := by rw [← String.length_utf8EncodeChar, utf8EncodeChar_of_ascii hq]; rfl
          have hfs : Ahead bytes i (byteOf c :: utf8 cs) := h
          rw [if_neg (by decide), skipFrom, if_pos hfs.lt_length, hfs.byteAt_eq]
          simp [bind, Except.bind, hne, ho, pure, Except.pure]
        · obtain ⟨fuel, rfl⟩ : ∃ less, fuel = less + (String.utf8EncodeChar c).length :=
            ⟨fuel - c.utf8Size, by rw [String.length_utf8EncodeChar]; omega⟩
          rw [String.length_utf8EncodeChar] at hf
          obtain ⟨text, rest, rfl, hs, hsk⟩ := ih false (c :: opened) hn
            (show bytes.length - (i + c.utf8Size) < fuel by omega)
          refine ⟨c :: text, rest, rfl, by simpa [scan, he, hc] using hs, ?_⟩
          have hi : ∀ b ∈ String.utf8EncodeChar c, b ≠ byteOf '\\' ∧ b ≠ byteOf quote := fun b hb =>
            ⟨ne_byteOf_of_mem he (by decide) hb, ne_byteOf_of_mem hc hq hb⟩
          rw [if_neg (by decide), skipFrom_inert h hi, String.length_utf8EncodeChar]
          simpa [Nat.add_assoc] using hsk

theorem skipString_eq {cs : List Char} (hq : quote.toNat < 128) (h : Ahead bytes i (utf8 (quote :: cs))) :
    ∃ text rest, cs = text ++ rest ∧ scan (.quoted quote false) [quote] cs = .sealed (quote :: text) :: atomsOf rest ∧
      skipString bytes i = .ok (i + 1 + byteLength text) := by
  rw [utf8_cons, utf8EncodeChar_of_ascii hq] at h
  have hf : Ahead bytes i (byteOf quote :: utf8 cs) := h
  obtain ⟨text, rest, hc, hs, hsk⟩ := skipFrom_scan hq false [quote] cs hf.step
    (show bytes.length - (i + 1) < bytes.length + 1 by omega)
  refine ⟨text, rest, hc, hs, ?_⟩
  rw [skipString, hf.byteAt_eq]
  exact hsk

end

/-! ### Comments -/

section

variable {first second : UInt8} {bytes inert rest : List UInt8} {i : ℕ}

theorem findPair?_inert (h : ∀ b ∈ inert, b ≠ first) :
    findPair? first second (inert ++ rest) = (findPair? first second rest).map (· + inert.length) := by
  induction inert with
  | nil => simp
  | cons b inert ih =>
    obtain ⟨hb, h⟩ := forall_mem_cons.mp h
    have hs : findPair? first second (b :: (inert ++ rest)) = (findPair? first second (inert ++ rest)).map (· + 1) := by
      cases inert ++ rest with
      | nil => rfl
      | cons a more => rw [findPair?, if_neg fun hp => hb hp.1]
    rw [cons_append, hs, ih h, Option.map_map]
    congr 1

/-- One character of a comment that does not end it: what is left to look at is the star, if it is one. -/
theorem findPair?_step {c : Char} {starred : Bool} (h : ¬ (starred ∧ c = '/')) (rest : List UInt8) :
    ∃ k, (if starred then 1 else 0) + c.utf8Size = (if c == '*' then 1 else 0) + k ∧
      findPair? (byteOf '*') (byteOf '/') ((if starred then [byteOf '*'] else []) ++ (String.utf8EncodeChar c ++ rest)) =
        (findPair? (byteOf '*') (byteOf '/') ((if c == '*' then [byteOf '*'] else []) ++ rest)).map (· + k) := by
  by_cases hs : c = '*'
  · subst hs
    cases starred with
    | false => exact ⟨0, rfl, by simp [utf8EncodeChar_of_ascii (c := '*') (by decide)]⟩
    | true =>
      have hn : byteOf '*' ≠ byteOf '/' := by decide
      exact ⟨1, rfl, by simp [utf8EncodeChar_of_ascii (c := '*') (by decide), findPair?, hn]⟩
  · have hp : findPair? (byteOf '*') (byteOf '/') (String.utf8EncodeChar c ++ rest) = _ :=
      findPair?_inert fun b hb => ne_byteOf_of_mem hs (by decide) hb
    rw [String.length_utf8EncodeChar] at hp
    cases starred with
    | false => exact ⟨c.utf8Size, by simp [hs], by simpa [hs] using hp⟩
    | true =>
      have hsl : c ≠ '/' := fun heq => h ⟨rfl, heq⟩
      obtain ⟨first, tail, hby⟩ := exists_cons_of_ne_nil (utf8EncodeChar_ne_nil c)
      have hf : first ≠ byteOf '/' := ne_byteOf_of_mem hsl (by decide) (by rw [hby]; exact .head _)
      refine ⟨c.utf8Size + 1, by simp [hs, Nat.add_comm], ?_⟩
      rw [hby] at hp ⊢
      simp only [if_true, cons_append, nil_append, findPair?, hf, and_false, if_false] at hp ⊢
      rw [hp]
      simp [hs, Function.comp_def, Nat.add_assoc]

/-- **A comment** is skipped as far as it is sealed. A star that precedes may start its end. -/
theorem findPair?_scan (starred : Bool) (opened cs : List Char) : ∃ text rest, cs = text ++ rest ∧
      scan (.comment starred) opened cs = .sealed (opened.reverse ++ text) :: atomsOf rest ∧
      (findPair? (byteOf '*') (byteOf '/') ((if starred then [byteOf '*'] else []) ++ utf8 cs)).elim
        ((if starred then 1 else 0) + byteLength cs) (· + 2) = (if starred then 1 else 0) + byteLength text := by
  induction cs generalizing starred opened with
  | nil => exact ⟨[], [], rfl, by simp [scan, atomsOf], by cases starred <;> rfl⟩
  | cons c cs ih =>
    by_cases he : starred = true ∧ c = '/'
    · obtain ⟨rfl, rfl⟩ := he
      exact ⟨['/'], cs, rfl, by simp [scan, atomsOf], rfl⟩
    · obtain ⟨text, rest, rfl, hs, hf⟩ := ih (c == '*') (c :: opened)
      have hst : scan (.comment starred) opened (c :: (text ++ rest)) =
          scan (.comment (c == '*')) (c :: opened) (text ++ rest) := by
        rw [scan, if_neg (by simpa using he)]
      refine ⟨c :: text, rest, rfl, by rw [hst, hs]; simp, ?_⟩
      obtain ⟨k, hk, hp⟩ := findPair?_step he (utf8 (text ++ rest))
      rw [utf8_cons, hp, byteLength_cons, byteLength_cons]
      cases hfd : findPair? (byteOf '*') (byteOf '/') ((if c == '*' then [byteOf '*'] else []) ++ utf8 (text ++ rest)) with
      | none =>
        simp only [hfd, Option.elim_none, Option.map_none] at hf ⊢
        omega
      | some p =>
        simp only [hfd, Option.elim_some, Option.map_some] at hf ⊢
        omega

/-- A comment is skipped from its slash on. -/
theorem skipComment_eq {cs : List Char} (h : Ahead bytes i (utf8 ('/' :: '*' :: cs))) : ∃ text rest, cs = text ++ rest ∧
      scan (.comment false) ['*', '/'] cs = .sealed ('/' :: '*' :: text) :: atomsOf rest ∧
      skipComment bytes i = .ok (i + 2 + byteLength text) := by
  have hi : Ahead bytes (i + 2) (utf8 cs) := (show Ahead bytes i ([byteOf '/', byteOf '*'] ++ utf8 cs) from h).skip
  have hl : bytes.length = i + 2 + byteLength cs := by simpa using hi.length_eq
  obtain ⟨text, rest, hc, hs, hf⟩ := findPair?_scan false ['*', '/'] cs
  refine ⟨text, rest, hc, hs, ?_⟩
  rw [skipComment, if_pos (by omega), hi.drop_eq]
  simp only [Bool.false_eq_true, if_false, nil_append, Nat.zero_add] at hf
  cases hfd : findPair? (byteOf '*') (byteOf '/') (utf8 cs) with
  | none =>
    rw [hfd, Option.elim_none] at hf
    simp only [hl, hf]
  | some p =>
    rw [hfd, Option.elim_some] at hf
    simp only [← hf, Nat.add_assoc]

end

/-! ### Walks -/

/-- Visits the signs among atoms, at their offsets. -/
def walkAtoms (visit : ℕ → Char → Except Fault (Option ℕ)) : ℕ → ℕ → List Atom → Except Fault (Option ℕ)
  | _, _, [] => .ok none
  | depth, i, .sealed text :: rest => walkAtoms visit depth (i + byteLength text) rest
  | depth, i, .sign c :: rest =>
    (visit depth c).bind (resume i fun depth => walkAtoms visit depth (i + c.utf8Size) rest)

/-- Bytes are visited as characters are, and what is not ASCII means nothing. -/
structure Agrees (visit : ℕ → UInt8 → Except Fault (Option ℕ)) (visitChar : ℕ → Char → Except Fault (Option ℕ)) :
    Prop where
  ascii : ∀ depth c, c.toNat < 128 → visit depth (byteOf c) = visitChar depth c
  byte : ∀ depth b, 128 ≤ b.toNat → visit depth b = .ok (some depth)
  char : ∀ depth c, 128 ≤ c.toNat → visitChar depth c = .ok (some depth)

section

variable {bytes : List UInt8} {visit : ℕ → UInt8 → Except Fault (Option ℕ)}
  {visitChar : ℕ → Char → Except Fault (Option ℕ)} {i depth fuel : ℕ}

/-- Bytes that are not ASCII are passed over one by one. -/
theorem walk_inert {inert rest : List UInt8} (hv : Agrees visit visitChar) (h : Ahead bytes i (inert ++ rest))
    (hi : ∀ b ∈ inert, 128 ≤ b.toNat) (fuel depth : ℕ) :
    walk bytes visit (fuel + inert.length) depth i = walk bytes visit fuel depth (i + inert.length) := by
  induction inert generalizing i with
  | nil => rfl
  | cons b inert ih =>
    obtain ⟨hb, hi⟩ := forall_mem_cons.mp hi
    have hp : b ≠ byteOf '"' ∧ b ≠ byteOf '\'' ∧ b ≠ byteOf '/' :=
      ⟨ne_byteOf hb (by decide), ne_byteOf hb (by decide), ne_byteOf hb (by decide)⟩
    rw [length_cons, ← Nat.add_assoc, walk, if_pos h.lt_length, h.byteAt_eq]
    refine Eq.trans ?_ ((ih h.step hi).trans (by rw [Nat.add_right_comm, Nat.add_assoc]))
    simp [bind, Except.bind, hp, hv.byte depth b hb, resume]

/-- The next byte is a star only if the next character is one. -/
theorem getElem?_ne_star {cs : List Char} (h : Ahead bytes i (utf8 cs)) (hs : cs.head? ≠ some '*') :
    bytes[i]? ≠ some (byteOf '*') := by
  rw [h.head?_eq]
  cases cs with
  | nil => exact fun heq => nomatch heq
  | cons c cs =>
    obtain ⟨first, tail, hb⟩ := exists_cons_of_ne_nil (utf8EncodeChar_ne_nil c)
    have hn : first ≠ byteOf '*' := ne_byteOf_of_mem (c := c) (fun heq => hs (congrArg some heq)) (by decide)
      (by rw [hb]; exact .head _)
    rw [utf8_cons, hb, cons_append, head?_cons]
    exact fun heq => hn (Option.some.inj heq)

theorem walk_sign {c : Char} {cs : List Char} (hv : Agrees visit visitChar) (h : Ahead bytes i (utf8 (c :: cs)))
    (hq : c ∉ quotes) (hst : c = '/' → cs.head? ≠ some '*') (hfu : c.utf8Size ≤ fuel) :
    walk bytes visit fuel depth i = (visitChar depth c).bind
      (resume i fun depth => walk bytes visit (fuel - c.utf8Size) depth (i + c.utf8Size)) := by
  rw [utf8_cons] at h
  have hs : (String.utf8EncodeChar c).length = c.utf8Size := String.length_utf8EncodeChar c
  rcases Nat.lt_or_ge c.toNat 128 with hc | hc
  · rw [utf8EncodeChar_of_ascii hc] at h hs
    have hf : Ahead bytes i (byteOf c :: utf8 cs) := h
    obtain ⟨fuel, rfl⟩ : ∃ less, fuel = less + 1 := ⟨fuel - 1, by rw [← hs, length_singleton] at hfu; omega⟩
    have hpl : ¬ (byteOf c = byteOf '"' ∨ byteOf c = byteOf '\'') := by
      rw [byteOf_inj hc (by decide), byteOf_inj hc (by decide)]
      simpa [quotes] using hq
    have hsl : ¬ (byteOf c = byteOf '/' ∧ bytes[i + 1]? = some (byteOf '*')) := by
      rw [byteOf_inj hc (by decide)]
      exact fun hco => getElem?_ne_star hf.step (hst hco.1) hco.2
    rw [walk, if_pos hf.lt_length, hf.byteAt_eq, ← hs, ← hv.ascii depth c hc]
    simp only [bind, Except.bind, hpl, hsl, if_false]
    rfl
  · obtain ⟨fuel, rfl⟩ : ∃ less, fuel = less + c.utf8Size := ⟨fuel - c.utf8Size, by omega⟩
    have hp := walk_inert hv h (fun b => le_of_mem_utf8EncodeChar hc) fuel depth
    rw [hs] at hp
    rw [hp, hv.char depth c hc, Nat.add_sub_cancel]
    rfl

theorem atomsOf_quote {quote : Char} (h : quote ∈ quotes) (cs : List Char) :
    atomsOf (quote :: cs) = scan (.quoted quote false) [quote] cs := by
  rw [quotes, mem_cons, mem_singleton] at h
  rcases h with rfl | rfl <;> rfl

theorem toNat_quote {quote : Char} (h : quote ∈ quotes) : quote.toNat < 128 := by
  rw [quotes, mem_cons, mem_singleton] at h
  rcases h with rfl | rfl <;> decide

/-- A string is passed over at once. -/
theorem walk_string {quote : Char} {cs : List Char} (hq : quote ∈ quotes) (h : Ahead bytes i (utf8 (quote :: cs)))
    (fuel depth : ℕ) : ∃ text rest, cs = text ++ rest ∧ atomsOf (quote :: cs) = .sealed (quote :: text) :: atomsOf rest ∧
      walk bytes visit (fuel + 1) depth i = walk bytes visit fuel depth (i + byteLength (quote :: text)) := by
  have hc := toNat_quote hq
  have hf : Ahead bytes i (byteOf quote :: utf8 cs) := by rwa [utf8_cons, utf8EncodeChar_of_ascii hc] at h
  have ho : byteOf quote = byteOf '"' ∨ byteOf quote = byteOf '\'' := by
    rw [byteOf_inj hc (by decide), byteOf_inj hc (by decide)]
    simpa [quotes] using hq
  have hon : quote.utf8Size = 1 := by rw [← String.length_utf8EncodeChar, utf8EncodeChar_of_ascii hc]; rfl
  obtain ⟨text, rest, hcs, hs, hsk⟩ := skipString_eq hc h
  refine ⟨text, rest, hcs, (atomsOf_quote hq cs).trans hs, ?_⟩
  rw [walk, if_pos hf.lt_length, hf.byteAt_eq, byteLength_cons, hon, ← Nat.add_assoc]
  simp [bind, Except.bind, ho, hsk]

/-- A comment is passed over at once. -/
theorem walk_comment {cs : List Char} (h : Ahead bytes i (utf8 ('/' :: '*' :: cs))) (fuel depth : ℕ) :
    ∃ text rest, cs = text ++ rest ∧ atomsOf ('/' :: '*' :: cs) = .sealed ('/' :: '*' :: text) :: atomsOf rest ∧
      walk bytes visit (fuel + 1) depth i = walk bytes visit fuel depth (i + byteLength ('/' :: '*' :: text)) := by
  have hf : Ahead bytes i (byteOf '/' :: utf8 ('*' :: cs)) := h
  have hsn : bytes[i + 1]? = some (byteOf '*') := hf.step.head?_eq
  have hp : ¬ (byteOf '/' = byteOf '"' ∨ byteOf '/' = byteOf '\'') := by decide
  obtain ⟨text, rest, hc, hs, hsk⟩ := skipComment_eq h
  have ht : byteLength ('/' :: '*' :: text) = 2 + byteLength text := by
    rw [byteLength_cons, byteLength_cons, ← Nat.add_assoc]
    rfl
  refine ⟨text, rest, hc, hs, ?_⟩
  rw [walk, if_pos hf.lt_length, hf.byteAt_eq, ht, ← Nat.add_assoc]
  simp [bind, Except.bind, hp, hsn, hsk]

/-- What is sealed into an atom is passed over at once. -/
theorem walk_sealed {c : Char} {cs : List Char} (hs : c ∈ quotes ∨ c = '/' ∧ cs.head? = some '*')
    (h : Ahead bytes i (utf8 (c :: cs))) (fuel depth : ℕ) :
    ∃ text rest, text ≠ [] ∧ c :: cs = text ++ rest ∧ atomsOf (c :: cs) = .sealed text :: atomsOf rest ∧
      walk bytes visit (fuel + 1) depth i = walk bytes visit fuel depth (i + byteLength text) := by
  rcases hs with hq | ⟨rfl, hst⟩
  · obtain ⟨text, rest, rfl, ha, hw⟩ := walk_string hq h fuel depth
    exact ⟨c :: text, rest, cons_ne_nil _ _, rfl, ha, hw⟩
  · obtain ⟨inside, rfl⟩ := head?_eq_some_iff.mp hst
    obtain ⟨text, rest, rfl, ha, hw⟩ := walk_comment h fuel depth
    exact ⟨'/' :: '*' :: text, rest, cons_ne_nil _ _, rfl, ha, hw⟩

theorem Ahead.skip_utf8 {text rest : List Char} (h : Ahead bytes i (utf8 (text ++ rest))) :
    Ahead bytes (i + byteLength text) (utf8 rest) := by
  rw [utf8_append] at h
  simpa using h.skip

theorem byteLength_pos {text : List Char} (h : text ≠ []) : 0 < byteLength text := by
  obtain ⟨c, rest, rfl⟩ := exists_cons_of_ne_nil h
  have := c.utf8Size_pos
  rw [byteLength_cons]
  omega

/-- **A walk over bytes** visits the signs among the atoms. -/
theorem walk_eq {cs : List Char} (hv : Agrees visit visitChar) (h : Ahead bytes i (utf8 cs))
    (hf : bytes.length - i < fuel) : walk bytes visit fuel depth i = walkAtoms visitChar depth i (atomsOf cs) := by
  -- a string or comment is left at once, so the induction is on the length of what follows
  induction hn : cs.length using Nat.strong_induction_on generalizing cs i depth fuel with
  | h n ih =>
    subst hn
    have hl : bytes.length = i + byteLength cs := by simpa using h.length_eq
    obtain ⟨fuel, rfl⟩ : ∃ less, fuel = less + 1 := ⟨fuel - 1, by omega⟩
    cases cs with
    | nil =>
      rw [walk, if_neg (by rw [hl]; simp)]
      rfl
    | cons c cs =>
      by_cases hse : c ∈ quotes ∨ c = '/' ∧ cs.head? = some '*'
      · obtain ⟨text, rest, hne, heq, ha, hw⟩ := walk_sealed hse h fuel depth
        have hp := byteLength_pos hne
        rw [heq, byteLength_append] at hl
        rw [hw, ha, walkAtoms]
        refine ih rest.length ?_ (heq ▸ h).skip_utf8 (by omega) rfl
        rw [heq, length_append]
        have := length_pos_iff.mpr hne
        omega
      · rw [not_or] at hse
        have hst : c = '/' → cs.head? ≠ some '*' := fun hc hs => hse.2 ⟨hc, hs⟩
        have hp := c.utf8Size_pos
        rw [byteLength_cons] at hl
        rw [walk_sign hv h hse.1 hst (by omega), atomsOf_cons hse.1 hst, walkAtoms]
        congr 2
        funext depth
        exact ih cs.length (by simp) (show Ahead bytes i (utf8 ([c] ++ cs)) from h).skip_utf8 (by omega) rfl

end

/-! ### The two searches -/

/-- Looks for characters outside brackets. -/
def visitTopChar (stops : List Char) (depth : ℕ) (c : Char) : Except Fault (Option ℕ) :=
  .ok (if depth == 0 && stops.contains c then none else some (depthAfter depth c))

/-- Looks for the brace that closes the first one. -/
def visitBlockChar (depth : ℕ) (c : Char) : Except Fault (Option ℕ) :=
  if c == '\x7b' then .ok (some (depth + 1))
  else if c == '\x7d' then (oneLess depth).map fun depth => if depth = 0 then none else some depth
  else .ok (some depth)

section

variable {stops before rest text : List Char} {c : Char} {i : ℕ}

theorem agrees_visitTop (hs : ∀ c ∈ stops, c.toNat < 128) :
    Agrees (visitTop (stops.map byteOf)) (visitTopChar stops) where
  ascii depth c hc := by
    have hm : byteOf c ∈ stops.map byteOf ↔ c ∈ stops := by
      refine ⟨fun h => ?_, mem_map_of_mem⟩
      obtain ⟨d, hd, heq⟩ := mem_map.mp h
      exact (byteOf_inj (hs d hd) hc).mp heq ▸ hd
    unfold visitTop visitTopChar depthAfter
    simp (disch := decide) only [hm, byteOf_inj hc, Bool.and_eq_true, beq_iff_eq, contains_iff_mem,
      Bool.or_eq_true, or_assoc]
    split_ifs <;> rfl
  byte depth b hb := by
    have hm : b ∉ stops.map byteOf := by
      intro h
      obtain ⟨d, hd, rfl⟩ := mem_map.mp h
      exact ne_byteOf hb (hs d hd) rfl
    unfold visitTop
    simp (disch := decide) only [hm, ne_byteOf hb, and_false, or_false, if_false]
  char depth c hc := by
    have hst : stops.contains c = false := by
      rw [Bool.eq_false_iff, Ne, contains_iff_mem]
      exact fun h => absurd (hs c h) (by omega)
    have hbk : c ∉ brackets := by
      intro h
      have ha : ∀ d ∈ brackets, d.toNat < 128 := by simp [brackets]
      exact absurd (ha c h) (by omega)
    rw [visitTopChar, hst, Stretch.depthAfter_sign depth hbk, Bool.and_false]
    rfl

theorem agrees_visitBlock : Agrees visitBlock visitBlockChar where
  ascii depth c hc := by
    unfold visitBlock visitBlockChar
    simp (disch := decide) only [byteOf_inj hc, beq_iff_eq]
    split_ifs
    · rfl
    · cases depth <;> rfl
    · rfl
  byte depth b hb := by
    unfold visitBlock
    simp (disch := decide) only [ne_byteOf hb, if_false]
  char depth c hc := by
    have ho : c ≠ '\x7b' := by rintro rfl; exact absurd hc (by decide)
    have hcl : c ≠ '\x7d' := by rintro rfl; exact absurd hc (by decide)
    simp [visitBlockChar, ho, hcl]

theorem walkAtoms_top (stops : List Char) (depth i : ℕ) (atoms : List Atom) :
    walkAtoms (visitTopChar stops) depth i atoms =
      .ok ((splitTopLevel? stops depth atoms).map fun split => i + byteLength (textOf split.1)) := by
  induction atoms generalizing depth i with
  | nil => rfl
  | cons atom atoms ih =>
    cases atom with
    | «sealed» text =>
      rw [walkAtoms, ih, splitTopLevel?, Option.map_map]
      simp [Function.comp_def, textOf, Atom.chars, Nat.add_assoc]
    | sign c =>
      rw [walkAtoms, splitTopLevel?, visitTopChar]
      by_cases hs : (depth == 0 && stops.contains c) = true
      · simp only [hs, if_true]
        rfl
      · simp only [hs, Bool.false_eq_true, if_false, Option.map_map]
        refine (ih _ _).trans ?_
        simp [Function.comp_def, textOf, Atom.chars, Nat.add_assoc]

theorem walkAtoms_block (depth i : ℕ) (atoms : List Atom) : walkAtoms visitBlockChar (depth + 1) i atoms =
      .ok ((splitBlock? depth atoms).map fun split => i + byteLength (textOf split.1)) := by
  induction atoms generalizing depth i with
  | nil => rfl
  | cons atom atoms ih =>
    cases atom with
    | «sealed» text =>
      rw [walkAtoms, ih, splitBlock?, Option.map_map]
      simp [Function.comp_def, textOf, Atom.chars, Nat.add_assoc]
    | sign c =>
      unfold splitBlock?
      rw [walkAtoms, visitBlockChar]
      by_cases hc : c = '\x7d'
      · subst hc
        cases depth with
        | zero => rfl
        | succ depth =>
          refine (ih depth _).trans ?_
          simp [Function.comp_def, textOf, Atom.chars, Nat.add_assoc]
      · by_cases ho : c = '\x7b'
        · subst ho
          refine (ih (depth + 1) _).trans ?_
          simp [Function.comp_def, textOf, Atom.chars, Nat.add_assoc]
        · simp only [hc, ho, beq_iff_eq, if_false]
          refine (ih depth _).trans ?_
          simp [Function.comp_def, textOf, Atom.chars, Nat.add_assoc]

/-- **The search outside brackets** finds where the atoms are split, without a fault. -/
theorem findTopLevel_eq (hs : ∀ c ∈ stops, c.toNat < 128) (text : List Char) : findTopLevel text stops =
      .ok ((splitTopLevel? stops 0 (atomsOf text)).map fun split => byteLength (textOf split.1)) := by
  have hst : Ahead (utf8 text) 0 (utf8 text) := ahead_utf8 [] text
  rw [findTopLevel, walk_eq (agrees_visitTop hs) hst (by simp), walkAtoms_top]
  simp

/-- **The search for the end of a block** finds where the atoms behind its brace are split, without a fault. -/
theorem blockEnd_eq (before rest : List Char) : blockEnd (before ++ '\x7b' :: rest) (byteLength before) =
      .ok ((splitBlock? 0 (atomsOf rest)).map fun split => byteLength (before ++ '\x7b' :: textOf split.1)) := by
  have hs := ahead_utf8 before ('\x7b' :: rest)
  rw [blockEnd, walk_eq agrees_visitBlock hs (by rw [length_utf8]; omega), atomsOf_cons (by decide) (by rintro ⟨⟩), walkAtoms]
  refine (walkAtoms_block 0 _ _).trans ?_
  simp [Nat.add_assoc]

/-! ### Splits of a text -/

theorem sealed_or_sign (c : Char) (cs : List Char) :
    (∃ text rest, text ≠ [] ∧ c :: cs = text ++ rest ∧ atomsOf (c :: cs) = .sealed text :: atomsOf rest) ∨
      atomsOf (c :: cs) = .sign c :: atomsOf cs := by
  by_cases hse : c ∈ quotes ∨ c = '/' ∧ cs.head? = some '*'
  · obtain ⟨text, rest, hn, heq, ha, -⟩ := @walk_sealed _ (fun _ _ => .ok none) _ c cs hse (ahead_utf8 [] (c :: cs)) 0 0
    exact .inl ⟨text, rest, hn, heq, ha⟩
  · rw [not_or] at hse
    exact .inr (atomsOf_cons hse.1 fun hc hs => hse.2 ⟨hc, hs⟩)

/-- What stands behind a sign is scanned on its own. -/
theorem atomsOf_eq_append {cs : List Char} {front after : List Atom} (h : atomsOf cs = front ++ .sign c :: after) :
    ∃ rest, cs = textOf front ++ c :: rest ∧ after = atomsOf rest := by
  induction hn : cs.length using Nat.strong_induction_on generalizing cs front with
  | h n ih =>
    subst hn
    cases cs with
    | nil => cases front <;> cases h
    | cons d cs =>
      rcases sealed_or_sign d cs with ⟨text, rest, hne, heq, hat⟩ | hat
      · rw [hat] at h
        cases front with
        | nil => cases h
        | cons atom front =>
          obtain ⟨rfl, ht⟩ := List.cons.inj h
          have hp := length_pos_iff.mpr hne
          obtain ⟨more, rfl, ha⟩ := ih rest.length (by rw [heq, length_append]; omega) ht rfl
          exact ⟨more, by rw [heq]; simp [textOf, Atom.chars], ha⟩
      · rw [hat] at h
        cases front with
        | nil =>
          obtain ⟨hs, ht⟩ := List.cons.inj h
          cases hs
          exact ⟨cs, rfl, ht.symm⟩
        | cons atom front =>
          obtain ⟨rfl, ht⟩ := List.cons.inj h
          obtain ⟨more, rfl, ha⟩ := ih cs.length (by simp) ht rfl
          exact ⟨more, by simp [textOf, Atom.chars], ha⟩

theorem textOf_atomsOf (cs : List Char) : textOf (atomsOf cs) = cs := by
  induction hn : cs.length using Nat.strong_induction_on generalizing cs with
  | h n ih =>
    subst hn
    cases cs with
    | nil => rfl
    | cons d cs =>
      rcases sealed_or_sign d cs with ⟨text, rest, hne, heq, ha⟩ | ha
      · have hp := length_pos_iff.mpr hne
        have hr := ih rest.length (by rw [heq, length_append]; omega) rest rfl
        rw [ha, heq]
        simpa [textOf, Atom.chars] using hr
      · have hr := ih cs.length (by simp) cs rfl
        rw [ha]
        simpa [textOf, Atom.chars] using hr

theorem splitTopLevel?_eq_some {depth : ℕ} {atoms front after : List Atom}
    (h : splitTopLevel? stops depth atoms = some (front, c, after)) : atoms = front ++ .sign c :: after ∧ c ∈ stops := by
  induction atoms generalizing depth front with
  | nil => cases h
  | cons atom atoms ih =>
    cases atom with
    | «sealed» text =>
      obtain ⟨⟨front', d, after'⟩, hs, heq⟩ := Option.map_eq_some_iff.mp h
      cases heq
      obtain ⟨rfl, hm⟩ := ih hs
      exact ⟨rfl, hm⟩
    | sign d =>
      rw [splitTopLevel?] at h
      split at h
      · next hst =>
        cases h
        exact ⟨rfl, by simpa using (Bool.and_eq_true_iff.mp hst).2⟩
      · obtain ⟨⟨front', d', after'⟩, hs, heq⟩ := Option.map_eq_some_iff.mp h
        cases heq
        obtain ⟨rfl, hm⟩ := ih hs
        exact ⟨rfl, hm⟩

theorem splitBlock?_eq_some {depth : ℕ} {atoms body after : List Atom} (h : splitBlock? depth atoms = some (body, after)) :
    atoms = body ++ .sign '\x7d' :: after := by
  induction atoms generalizing depth body with
  | nil => cases h
  | cons atom atoms ih =>
    cases atom with
    | «sealed» text =>
      obtain ⟨⟨body', after'⟩, hs, heq⟩ := Option.map_eq_some_iff.mp h
      cases heq
      rw [ih hs]
      rfl
    | sign d =>
      unfold splitBlock? at h
      split at h
      · next hc =>
        cases depth with
        | zero =>
          cases h
          rw [beq_iff_eq.mp hc]
          rfl
        | succ depth =>
          obtain ⟨⟨body', after'⟩, hs, heq⟩ := Option.map_eq_some_iff.mp h
          cases heq
          rw [ih hs]
          rfl
      · obtain ⟨⟨body', after'⟩, hs, heq⟩ := Option.map_eq_some_iff.mp h
        cases heq
        rw [ih hs]
        rfl

end

end Polyview.Css
