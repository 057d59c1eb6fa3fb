import Polyview.Proofs.Import.History
import Polyview.Text.Charset

/-! # Import statements read back

The statements of a record are a text. A reader of such texts cuts a statement into lexemes, takes its clause from them,
and merges the clauses of a module into a record again.

* `lex_tail`: lexemes that are written with a blank in front of each but the commas and semicolons are read back.
* `readNames?_lexemes`: named bindings are read back with their marks, which are left out exactly where the whole clause
  has one.
* `statements_read_back`: the statements of every record that a run of registrations makes are read back as the record.
  This depends on the run: a record for types only has no other named bindings, and binds something. -/

namespace Polyview

open List Text

/-! ### Lexemes -/

/-- A lexeme of an import statement. -/
inductive Lexeme
  | word (text : String)
  | sign (c : Char)
  | quoted (text : String)

/-- The signs of import statements. -/
def isImportSign (c : Char) : Bool := c == '\x7b' || c == '\x7d' || c == ',' || c == '*' || c == ';'

/-- Puts a word in front of lexemes, unless it is empty. The word is given backwards. -/
def closeWord? (piece : List Char) (lexemes : List Lexeme) : Option (List Lexeme) :=
  match piece.reverse with
  | [] => some lexemes
  | first :: more => if isIdentifierStart first then some (.word (String.ofList (first :: more)) :: lexemes) else none

/-- The lexemes of a text. The word or the text in quotes that has been read in part is given backwards. -/
def lex (quoted : Bool) (piece : List Char) : List Char → Option (List Lexeme)
  | [] => if quoted then none else closeWord? piece []
  | c :: cs =>
    if quoted then
      if c == '"' then (lex false [] cs).map (.quoted (String.ofList piece.reverse) :: ·)
      else if c == '\\' || c == '\n' || c == '\r' then none
      else lex true (c :: piece) cs
    else if isIdentifierPart c then lex false (c :: piece) cs
    else if c == ' ' then (lex false [] cs).bind (closeWord? piece)
    else if c == '"' then (lex true [] cs).bind (closeWord? piece)
    else if isImportSign c then ((lex false [] cs).map (.sign c :: ·)).bind (closeWord? piece)
    else none

/-- An identifier. -/
def IsWord (name : String) : Prop :=
  (∃ first ∈ name.toList.head?, isIdentifierStart first = true) ∧ ∀ c ∈ name.toList, isIdentifierPart c = true

instance (name : String) : Decidable (IsWord name) :=
  @instDecidableAnd _ _ (Option.decidableExistsMem name.toList.head?) (List.decidableBAll _ name.toList)

/-- A text that may stand in quotes as it is. -/
def IsQuotable (text : String) : Prop := ∀ c ∈ text.toList, c ≠ '"' ∧ c ≠ '\\' ∧ c ≠ '\n' ∧ c ≠ '\r'

instance (text : String) : Decidable (IsQuotable text) := List.decidableBAll _ text.toList

namespace Lexeme

/-- A lexeme with the blank in front of it. -/
def spaced : Lexeme → List Char
  | word text => ' ' :: text.toList
  | sign c => if c == ',' || c == ';' then [c] else [' ', c]
  | quoted text => ' ' :: '"' :: (text.toList ++ ['"'])

/-- A lexeme that can be written. -/
def Proper : Lexeme → Prop
  | word text => IsWord text
  | sign c => isImportSign c = true
  | quoted text => IsQuotable text

end Lexeme

/-- Lexemes with their blanks. -/
def tail (lexemes : List Lexeme) : List Char := lexemes.flatMap Lexeme.spaced

section

variable {text rest : List Char} {lexemes : List Lexeme} {name : String} {c : Char}

theorem isIdentifierPart_sign (h : isImportSign c) : isIdentifierPart c = false := by
  simp only [isImportSign, Bool.or_eq_true, beq_iff_eq, or_assoc] at h
  rcases h with rfl | rfl | rfl | rfl | rfl <;> decide

/-- What is written ends the word in front of it. -/
theorem head?_tail (h : ∀ lexeme ∈ lexemes, lexeme.Proper) (hc : c ∈ (tail lexemes).head?) :
    isIdentifierPart c = false := by
  have hb : isIdentifierPart ' ' = false := by decide
  cases lexemes with
  | nil => cases hc
  | cons lexeme rest =>
    cases lexeme with
    | sign d =>
      have hs := isIdentifierPart_sign (h _ (.head _))
      simp only [tail, flatMap_cons, Lexeme.spaced] at hc
      split at hc <;> cases hc
      · exact hs
      · exact hb
    | _ => cases hc; exact hb

theorem lex_parts {word : List Char} (h : ∀ c ∈ word, isIdentifierPart c) (piece rest : List Char) :
    lex false piece (word ++ rest) = lex false (word.reverse ++ piece) rest := by
  induction word generalizing piece with
  | nil => rfl
  | cons c word ih =>
    obtain ⟨hc, h⟩ := forall_mem_cons.mp h
    rw [cons_append, lex]
    simp [hc, ih h]

theorem closeWord?_nil : closeWord? [] = some := rfl

theorem lex_of_head? (h : ∀ c ∈ text.head?, isIdentifierPart c = false) (piece : List Char) :
    lex false piece text = (lex false [] text).bind (closeWord? piece) := by
  cases text with
  | nil => rfl
  | cons c cs =>
    simp only [lex, h c rfl, closeWord?_nil, Option.bind_fun_some, Bool.false_eq_true, if_false]
    split_ifs <;> rfl

theorem lex_word (hn : IsWord name) (h : ∀ c ∈ rest.head?, isIdentifierPart c = false) :
    lex false [] (name.toList ++ rest) = (lex false [] rest).map (.word name :: ·) := by
  obtain ⟨⟨first, hf, hs⟩, hp⟩ := hn
  obtain ⟨more, hn⟩ := head?_eq_some_iff.mp hf
  have hc : closeWord? name.toList.reverse = fun lexemes => some (.word name :: lexemes) := by
    funext lexemes
    simp only [closeWord?, reverse_reverse]
    rw [hn]
    dsimp only
    rw [if_pos hs, ← hn, String.ofList_toList]
  rw [lex_parts hp, append_nil, lex_of_head? h, hc]
  cases lex false [] rest <;> rfl

theorem lex_quoted {cs : List Char} (h : ∀ c ∈ cs, c ≠ '"' ∧ c ≠ '\\' ∧ c ≠ '\n' ∧ c ≠ '\r')
    (piece rest : List Char) : lex true piece (cs ++ '"' :: rest) =
      (lex false [] rest).map (.quoted (String.ofList (piece.reverse ++ cs)) :: ·) := by
  induction cs generalizing piece with
  | nil => simp [lex]
  | cons c cs ih =>
    obtain ⟨⟨hq, he, hl, hr⟩, h⟩ := forall_mem_cons.mp h
    rw [cons_append, lex]
    simp [hq, he, hl, hr, ih h]

theorem lex_blank (rest : List Char) : lex false [] (' ' :: rest) = lex false [] rest := by
  have hp : isIdentifierPart ' ' = false := by decide
  simp [lex, hp, closeWord?_nil]

theorem lex_sign (h : isImportSign c) (rest : List Char) :
    lex false [] (c :: rest) = (lex false [] rest).map (.sign c :: ·) := by
  have hb : c ≠ ' ' := by rintro rfl; cases h
  have hq : c ≠ '"' := by rintro rfl; cases h
  simp [lex, isIdentifierPart_sign h, closeWord?_nil, hb, hq, h]

/-- **Lexemes that are written are read back.** -/
theorem lex_tail (h : ∀ lexeme ∈ lexemes, lexeme.Proper) : lex false [] (tail lexemes) = some lexemes := by
  induction lexemes with
  | nil => rfl
  | cons lexeme rest ih =>
    obtain ⟨hp, hr⟩ := forall_mem_cons.mp h
    have ih := ih hr
    rw [tail, flatMap_cons, ← tail]
    cases lexeme with
    | word text =>
      rw [Lexeme.spaced, cons_append, lex_blank, lex_word hp fun c => head?_tail hr, ih]
      rfl
    | sign c =>
      rw [Lexeme.spaced]
      split
      · rw [singleton_append, lex_sign hp, ih]
        rfl
      · rw [cons_append, lex_blank, singleton_append, lex_sign hp, ih]
        rfl
    | quoted text =>
      have hpa : isIdentifierPart '"' = false := by decide
      rw [Lexeme.spaced, cons_append, lex_blank, cons_append, append_assoc, lex]
      simp [hpa, closeWord?_nil, lex_quoted hp, ih]

/-- Texts with commas between them are the lexemes of the texts with commas between them. -/
theorem cons_join {α : Type} {text : α → String} {lexemes : α → List Lexeme} {items : List α} (hit : items ≠ [])
    (h : ∀ item ∈ items, ' ' :: (text item).toList = tail (lexemes item)) :
    ' ' :: (join ", " (items.map text)).toList = tail ([.sign ','].intercalate (items.map lexemes)) := by
  induction items with
  | nil => exact absurd rfl hit
  | cons item items ih =>
    obtain ⟨hi, h⟩ := forall_mem_cons.mp h
    cases items with
    | nil => simpa [join] using hi
    | cons next items =>
      have hr := ih (cons_ne_nil _ _) h
      simp only [map_cons, join, String.intercalate_cons_cons, intercalate_cons_cons, String.toList_append, tail,
        flatMap_append] at hr hi ⊢
      rw [append_assoc, ← cons_append, hi, ← hr]
      simp [Lexeme.spaced]

end

/-! ### Clauses -/

/-- A named binding from its words. -/
def readName? (typeOnly : Bool) : List String → Option ImportedName
  | [name] => some ⟨name, name, typeOnly⟩
  | [mark, name] => if mark == "type" && !typeOnly then some ⟨name, name, true⟩ else none
  | [imported, link, bound] => if link == "as" then some ⟨imported, bound, typeOnly⟩ else none
  | [mark, imported, link, bound] =>
    if mark == "type" && link == "as" && !typeOnly then some ⟨imported, bound, true⟩ else none
  | _ => none

/-- The named bindings up to a closing brace, and what stands behind it. The words of the next binding that have been
read are given. -/
def readNames? (typeOnly : Bool) (words : List String) : List Lexeme → Option (List ImportedName × List Lexeme)
  | .word word :: rest => readNames? typeOnly (words ++ [word]) rest
  | .sign ',' :: rest => do
    let entry ← readName? typeOnly words
    let (entries, rest) ← readNames? typeOnly [] rest
    return (entry :: entries, rest)
  | .sign '\x7d' :: rest => (readName? typeOnly words).map fun entry => ([entry], rest)
  | _ => none

/-- Adds the module to a record, at the end of a statement. -/
def readTarget? (record : Import) : List Lexeme → Option Import
  | [.word link, .quoted source, .sign ';'] => if link == "from" then some { record with source } else none
  | _ => none

/-- Adds named bindings or a binding of the whole module to a record, and then the module. -/
def readGroup? (record : Import) : List Lexeme → Option Import
  | .sign '\x7b' :: rest => do
    let (named, rest) ← readNames? record.typeOnly [] rest
    readTarget? { record with named } rest
  | .sign '*' :: .word link :: .word name :: rest =>
    if link == "as" then readTarget? { record with namespaceName := some name } rest else none
  | _ => none

/-- The record of a clause and its module. -/
def readClause? (typeOnly : Bool) : List Lexeme → Option Import
  | .word name :: .sign ',' :: rest => readGroup? { source := "", defaultName := some name, typeOnly } rest
  | .word name :: rest => readTarget? { source := "", defaultName := some name, typeOnly } rest
  | rest => readGroup? { source := "", typeOnly } rest

/-- Whether the word `type` at the start of a clause is a mark. Otherwise it is the default binding. -/
def isMark : List Lexeme → Bool
  | .sign ',' :: _ => false
  | [.word _, .quoted _, .sign _] => false
  | _ => true

/-- The record of an import statement behind its keyword. -/
def readImport? : List Lexeme → Option Import
  | [.quoted source, .sign ';'] => some { source }
  | .word mark :: rest =>
    if mark == "type" && isMark rest then readClause? true rest else readClause? false (.word mark :: rest)
  | rest => readClause? false rest

/-- The record of an import statement. -/
def readStatement? (statement : String) : Option Import :=
  match lex false [] statement.toList with
  | some (.word "import" :: rest) => readImport? rest
  | _ => none

/-- Merges the records of the one or two statements of a module. -/
def mergeRecords? : List Import → Option Import
  | [record] => some record
  | [first, second] =>
    if first.source = second.source ∧ first.typeOnly = second.typeOnly then
      some { first with
        defaultName := first.defaultName.or second.defaultName
        namespaceName := first.namespaceName.or second.namespaceName
        named := first.named ++ second.named }
    else none
  | _ => none

/-- The record of a module from its statements. -/
def readModule? (statements : List String) : Option Import := (statements.mapM readStatement?).bind mergeRecords?

/-! ### Named bindings -/

section

variable {entry : ImportedName} {typeOnly : Bool}

/-- The words of a named binding. -/
def ImportedName.words (typeOnly : Bool) (entry : ImportedName) : List String :=
  (if entry.typeOnly && !typeOnly then ["type"] else []) ++
    if entry.imported == entry.bound then [entry.bound] else [entry.imported, "as", entry.bound]

theorem readName?_words (h : typeOnly → entry.typeOnly) :
    readName? typeOnly (entry.words typeOnly) = some entry := by
  rcases entry with ⟨imported, bound, marked⟩
  unfold ImportedName.words
  by_cases hb : imported = bound <;> cases typeOnly <;> cases marked <;> simp_all [readName?]

theorem cons_render (typeOnly : Bool) (entry : ImportedName) :
    ' ' :: (entry.render typeOnly).toList = tail ((entry.words typeOnly).map .word) := by
  unfold ImportedName.render ImportedName.words
  by_cases hb : entry.imported = entry.bound <;> by_cases hm : (entry.typeOnly && !typeOnly) = true <;>
    simp [hb, hm, tail, Lexeme.spaced]

/-- The lexemes of named bindings between braces. -/
def namesLexemes (typeOnly : Bool) (names : List ImportedName) : List Lexeme :=
  [.sign ','].intercalate (names.map fun entry => (entry.words typeOnly).map .word)

theorem readNames?_words (typeOnly : Bool) (known words : List String) (rest : List Lexeme) :
    readNames? typeOnly known (words.map .word ++ rest) = readNames? typeOnly (known ++ words) rest := by
  induction words generalizing known with
  | nil => simp
  | cons word words ih => simp [readNames?, ih]

/-- Named bindings are read back with their marks. -/
theorem readNames?_lexemes {names : List ImportedName} (hn : names ≠ [])
    (h : typeOnly → ∀ entry ∈ names, entry.typeOnly) (rest : List Lexeme) :
    readNames? typeOnly [] (namesLexemes typeOnly names ++ .sign '\x7d' :: rest) = some (names, rest) := by
  induction names with
  | nil => exact absurd rfl hn
  | cons entry names ih =>
    have he : readName? typeOnly (entry.words typeOnly) = some entry := readName?_words fun ht => h ht entry (.head _)
    cases names with
    | nil => simp [namesLexemes, readNames?_words, readNames?, he]
    | cons next names =>
      have hr := ih (cons_ne_nil _ _) fun ht other ho => h ht other (.tail _ ho)
      simp only [namesLexemes, map_cons, intercalate_cons_cons, append_assoc] at hr ⊢
      rw [readNames?_words, nil_append, singleton_append, readNames?, he, hr]
      rfl

end

/-! ### Statements -/

theorem mem_intercalate {α : Type} {separator x : α} {parts : List (List α)} (h : x ∈ [separator].intercalate parts) :
    x = separator ∨ ∃ part ∈ parts, x ∈ part := by
  induction parts with
  | nil => cases h
  | cons part parts ih => cases parts <;> simp_all [intercalate_cons_cons]; tauto

namespace Import

variable {record : Import}

def names (record : Import) : List String :=
  record.defaultName.toList ++ record.namespaceName.toList ++
    record.named.flatMap fun entry => [entry.imported, entry.bound]

/-- A record whose names are words, and whose module may stand in quotes. -/
structure Spelled (record : Import) : Prop where
  words : ∀ name ∈ record.names, IsWord name
  quotable : IsQuotable record.source

/-- A record that its statements show: if it is for types only, its named bindings are, and it binds something. -/
structure Shown (record : Import) : Prop where
  types : record.typeOnly = true → ∀ entry ∈ record.named, entry.typeOnly = true
  effects : record.isSideEffect = true → record.typeOnly = false

/-- The parts of a clause, as text and as lexemes. -/
def sections (record : Import) : List (String × List Lexeme) :=
  record.defaultName.toList.map (fun name => (name, [.word name])) ++ (if record.named.isEmpty then []
      else [("\x7b " ++ join ", " (record.named.map (ImportedName.render record.typeOnly)) ++ " \x7d",
        .sign '\x7b' :: (namesLexemes record.typeOnly record.named ++ [.sign '\x7d']))]) ++
    record.namespaceName.toList.map fun name => ("* as " ++ name, [.sign '*', .word "as", .word name])

/-- The statement of a record that one clause can show. -/
def statement (record : Import) : String :=
  (if record.typeOnly then "import type " else "import ") ++
    (if record.isSideEffect then "" else join ", " (record.sections.map Prod.fst) ++ " from ") ++
    ("\"" ++ record.source ++ "\"" ++ ";")

def clauseLexemes (record : Import) : List Lexeme := [.sign ','].intercalate (record.sections.map Prod.snd)

/-- The lexemes of a statement behind its keyword. -/
def lexemes (record : Import) : List Lexeme :=
  (if record.typeOnly then [.word "type"] else []) ++
    ((if record.isSideEffect then [] else record.clauseLexemes ++ [.word "from"]) ++ [.quoted record.source, .sign ';'])

theorem cons_section {part : String × List Lexeme} (h : part ∈ record.sections) : ' ' :: part.1.toList = tail part.2 := by
  simp only [sections, mem_append, mem_map] at h
  rcases h with (⟨name, -, rfl⟩ | h) | ⟨name, -, rfl⟩
  · simp [tail, Lexeme.spaced]
  · split at h
    · cases h
    · next he =>
      obtain rfl := mem_singleton.mp h
      have hne : record.named ≠ [] := by simpa using he
      have hn := cons_join hne fun entry _ => cons_render record.typeOnly entry
      simp only [namesLexemes, tail, flatMap_cons, flatMap_append] at hn ⊢
      simp [Lexeme.spaced, ← hn]
  · simp [tail, Lexeme.spaced]

theorem sections_ne_nil (h : record.isSideEffect = false) : record.sections ≠ [] := by
  rcases record with ⟨source, default?, whole?, named, typeOnly⟩
  cases default? <;> cases whole? <;> cases named <;> simp_all [sections, isSideEffect]

theorem cons_statement (record : Import) :
    ' ' :: record.statement.toList = tail (.word "import" :: record.lexemes) := by
  cases he : record.isSideEffect with
  | true => cases ht : record.typeOnly <;> simp [statement, lexemes, he, ht, tail, Lexeme.spaced]
  | false =>
    have hc := cons_join (sections_ne_nil he) fun part => cons_section
    simp only [statement, lexemes, clauseLexemes, he, tail, flatMap_cons, flatMap_append] at hc ⊢
    cases ht : record.typeOnly <;> simp [Lexeme.spaced, ← hc]

theorem isWord_of_mem_words {entry : ImportedName} (hi : IsWord entry.imported) (hb : IsWord entry.bound)
    {typeOnly : Bool} {word : String} (h : word ∈ entry.words typeOnly) : IsWord word := by
  have ht : IsWord "type" := by decide
  have has : IsWord "as" := by decide
  unfold ImportedName.words at h
  split_ifs at h <;> simp only [mem_append, mem_cons, not_mem_nil, or_false, false_or] at h <;>
    rcases h with rfl | rfl | rfl | rfl <;> assumption

theorem Spelled.proper_section (h : record.Spelled) {part : String × List Lexeme} (hp : part ∈ record.sections) :
    ∀ lexeme ∈ part.2, lexeme.Proper := by
  have has : IsWord "as" := by decide
  have hs : ∀ c ∈ ['\x7b', '\x7d', '*', ','], isImportSign c = true := by simp [isImportSign]
  simp only [sections, mem_append, mem_map, Option.mem_toList] at hp
  rcases hp with (⟨name, hn, rfl⟩ | hnm) | ⟨name, hn, rfl⟩
  · have hw := h.words name (by simp [names, Option.mem_def.mp hn])
    simpa [Lexeme.Proper] using hw
  · split at hnm
    · cases hnm
    · obtain rfl := mem_singleton.mp hnm
      intro lexeme hl
      simp only [mem_cons, mem_append, not_mem_nil, or_false] at hl
      rcases hl with rfl | hl | rfl
      · exact hs _ (by simp)
      · rcases mem_intercalate hl with rfl | ⟨words, hwo, hl⟩
        · exact hs _ (by simp)
        · obtain ⟨entry, he, rfl⟩ := mem_map.mp hwo
          obtain ⟨word, hw, rfl⟩ := mem_map.mp hl
          have hi : ∀ name ∈ [entry.imported, entry.bound], name ∈ record.names := fun name hn =>
            mem_append_right _ (mem_flatMap.mpr ⟨entry, he, hn⟩)
          exact isWord_of_mem_words (h.words _ (hi _ (by simp))) (h.words _ (hi _ (by simp))) hw
      · exact hs _ (by simp)
  · have hw := h.words name (by simp [names, Option.mem_def.mp hn])
    simpa [Lexeme.Proper, has] using ⟨hs _ (by simp), hw⟩

theorem Spelled.proper (h : record.Spelled) : ∀ lexeme ∈ .word "import" :: record.lexemes, lexeme.Proper := by
  have hw : ∀ word ∈ ["import", "type", "from"], IsWord word := by decide
  have hc : ∀ lexeme ∈ record.clauseLexemes, lexeme.Proper := by
    intro lexeme hl
    rcases mem_intercalate hl with rfl | ⟨part, hp, hl⟩
    · exact (by decide : isImportSign ',' = true)
    · obtain ⟨both, hb, rfl⟩ := mem_map.mp hp
      exact h.proper_section hb lexeme hl
  have he : isImportSign ';' := by decide
  intro lexeme hl
  unfold lexemes at hl
  split_ifs at hl <;> simp only [mem_append, mem_cons, not_mem_nil, or_false, false_or] at hl
  all_goals grind [Lexeme.Proper, h.quotable]

theorem readClause?_clauseLexemes (hs : record.Shown) (hb : record.isSideEffect = false)
    (ho : record.namespaceName = none ∨ record.named = []) :
    readClause? record.typeOnly (record.clauseLexemes ++ [.word "from", .quoted record.source, .sign ';']) =
      some record := by
  obtain ⟨ht, -⟩ := hs
  rcases record with ⟨source, default?, whole?, named, typeOnly⟩
  cases named with
  | nil =>
    cases default? <;> cases whole? <;>
      simp_all [clauseLexemes, sections, readClause?, readGroup?, readTarget?, isSideEffect]
  | cons entry named =>
    obtain rfl : whole? = none := ho.resolve_right (cons_ne_nil _ _)
    have hr := readNames?_lexemes (cons_ne_nil entry named) ht
    cases default? <;> simp [clauseLexemes, sections, readClause?, readGroup?, readTarget?, hr]

/-- The word `type` in front of a clause is read as a mark, and no default binding is. -/
theorem readImport?_lexemes (hs : record.Shown) (ho : record.namespaceName = none ∨ record.named = []) :
    readImport? record.lexemes = some record := by
  cases he : record.isSideEffect with
  | true =>
    have ht := hs.effects he
    rcases record with ⟨source, default?, whole?, named, typeOnly⟩
    simp_all [isSideEffect, lexemes, readImport?]
  | false =>
    rw [← readClause?_clauseLexemes hs he ho]
    rcases record with ⟨source, default?, whole?, named, typeOnly⟩
    cases default? <;> cases whole? <;> cases named <;> cases typeOnly <;>
      simp_all [isSideEffect, lexemes, clauseLexemes, sections, readImport?, isMark]

theorem readStatement?_statement (hs : record.Shown) (hsp : record.Spelled)
    (ho : record.namespaceName = none ∨ record.named = []) : readStatement? record.statement = some record := by
  have hl : lex false [] record.statement.toList = some (.word "import" :: record.lexemes) := by
    rw [← lex_blank, cons_statement, lex_tail hsp.proper]
  rw [readStatement?, hl]
  exact readImport?_lexemes hs ho

/-- The records of the statements of a record. -/
def clauses (record : Import) : List Import :=
  if record.namespaceName.isSome && !record.named.isEmpty then
    [{ record with namespaceName := none }, { record with defaultName := none, named := [] }]
  else [record]

theorem statements_eq (hs : record.Shown) : record.statements = record.clauses.map statement := by
  obtain ⟨-, he⟩ := hs
  rcases record with ⟨source, default?, whole?, named, typeOnly⟩
  cases default? <;> cases whole? <;> cases named <;>
    simp_all [statements, clauses, statement, sections, isSideEffect, String.append_assoc]

/-- The clauses of a record come together again. -/
theorem mergeRecords?_clauses (record : Import) : mergeRecords? record.clauses = some record := by
  rcases record with ⟨source, default?, whole?, named, typeOnly⟩
  cases whole? <;> cases named <;> simp [mergeRecords?, clauses]

theorem readStatement?_of_mem_clauses (hs : record.Shown) (hsp : record.Spelled) {clause : Import}
    (h : clause ∈ record.clauses) : readStatement? clause.statement = some clause := by
  obtain ⟨ht, he⟩ := hs
  obtain ⟨hw, hq⟩ := hsp
  rcases record with ⟨source, default?, whole?, named, typeOnly⟩
  unfold clauses at h
  split at h
  · next hb =>
    obtain ⟨hwh, hna⟩ := Bool.and_eq_true_iff.mp hb
    rw [mem_cons, mem_singleton] at h
    rcases h with rfl | rfl
    · refine readStatement?_statement ⟨ht, ?_⟩ ⟨fun name hn => hw name ?_, hq⟩ (.inl rfl)
      · simp_all [isSideEffect]
      · simp only [names, mem_append] at hn ⊢
        tauto
    · refine readStatement?_statement ⟨nofun, ?_⟩ ⟨fun name hn => hw name ?_, hq⟩ (.inr rfl)
      · cases whole? <;> simp_all [isSideEffect]
      · simp only [names, mem_append] at hn ⊢
        tauto
  · next ho =>
    obtain rfl := mem_singleton.mp h
    refine readStatement?_statement ⟨ht, he⟩ ⟨hw, hq⟩ ?_
    cases whole? <;> simp_all

/-- **Statements are read back** as the record that they show. -/
theorem Shown.readModule?_statements (hs : record.Shown) (hsp : record.Spelled) :
    readModule? record.statements = some record := by
  have hr : (record.clauses.map statement).mapM readStatement? = some record.clauses := by
    have hc := fun clause (h : clause ∈ record.clauses) => readStatement?_of_mem_clauses hs hsp h
    generalize record.clauses = clauses at hc
    induction clauses with
    | nil => rfl
    | cons clause clauses ih =>
      rw [map_cons, mapM_cons, hc clause (.head _), ih fun other h => hc other (.tail _ h)]
      rfl
  rw [readModule?, statements_eq hs, hr, Option.bind_some, mergeRecords?_clauses]

end Import

/-! ### Records that a run makes -/

/-- Nothing is bound for types only. -/
theorem typeOnly_of_binding_nothing {step : Registrar.Step} {r : Registration} (h : r ∈ step.registrations)
    (hn : r.binding = .nothing) : r.typeOnly = false := by
  cases step with
  | register record =>
    rw [Registrar.Step.registrations] at h
    split at h
    · rw [mem_singleton.mp h]
    · rcases mem_append.mp h with h | h
      · rcases mem_append.mp h with h | h
        · obtain ⟨name, -, rfl⟩ := Option.map_eq_some_iff.mp (Option.mem_toList.mp h)
          cases hn
        · obtain ⟨name, -, rfl⟩ := Option.map_eq_some_iff.mp (Option.mem_toList.mp h)
          cases hn
      · obtain ⟨entry, -, rfl⟩ := mem_map.mp h
        cases hn
  | _ =>
    obtain rfl := mem_singleton.mp h
    cases hn <;> rfl

/-- A registration binds nothing if the record that it makes with others does not. -/
theorem binding_eq_nothing {source : String} {own : List Registration} {r : Registration}
    (h : (Import.gather source own).isSideEffect) (hr : r ∈ own) : r.binding = .nothing := by
  simp only [Import.isSideEffect, Import.gather, Bool.and_eq_true, Option.isNone_iff_eq_none, Option.or_eq_none_iff,
    List.isEmpty_iff, findSome?_eq_none_iff] at h
  obtain ⟨⟨⟨-, hd⟩, hw⟩, hn⟩ := h
  have hna : r.name? = none := by
    by_contra hs
    obtain ⟨entry, he⟩ := Option.ne_none_iff_exists'.mp hs
    obtain ⟨known, hk, -⟩ := exists_mem_grouped (mem_filterMap.mpr ⟨r, hr, he⟩)
    rw [hn] at hk
    cases hk
  have hd := hd r hr
  have hw := hw r hr
  rcases r with ⟨home, typeOnly, binding⟩
  cases binding with
  | nothing => rfl
  | defaultName symbol => cases hd
  | wholeModule symbol => cases hw
  | named imported bound => cases hna

theorem shown_of_mem_modules {steps : List Registrar.Step} {record : Import}
    (h : record ∈ (steps.foldl Registrar.apply {}).modules) : record.Shown := by
  rw [foldl_apply] at h
  obtain ⟨source, hsr, rfl⟩ := mem_modules_ofHistory.mp h
  refine ⟨fun ht => (gather_shows source _).types ht, fun he => ?_⟩
  obtain ⟨r, hr, rfl⟩ := mem_map.mp hsr
  obtain ⟨step, -, hs⟩ := mem_flatMap.mp hr
  have ho : r ∈ (steps.flatMap Registrar.Step.registrations).filter fun other => other.source = r.source :=
    mem_filter.mpr ⟨hr, decide_eq_true rfl⟩
  have hty := typeOnly_of_binding_nothing hs (binding_eq_nothing he ho)
  rw [Import.gather, all_eq_false]
  exact ⟨r, ho, by simp [hty]⟩

/-- The names in a binding. -/
def Binding.names : Binding → List String
  | .nothing => []
  | .defaultName symbol | .wholeModule symbol => [symbol]
  | .named imported bound => [imported, bound]

/-- The names of a record are those of its registrations. -/
theorem exists_of_mem_names {source name : String} {own : List Registration}
    (h : name ∈ (Import.gather source own).names) : ∃ r ∈ own, name ∈ r.binding.names := by
  have hd {r : Registration} (h : r.default? = some name) : name ∈ r.binding.names := by
    unfold Registration.default? at h
    split at h <;> cases h
    next hb => simp [hb, Binding.names]
  have hn {entry : ImportedName} (h : entry ∈ own.filterMap Registration.name?) :
      ∃ r ∈ own, entry.imported ∈ r.binding.names ∧ entry.bound ∈ r.binding.names := by
    obtain ⟨r, hr, h⟩ := mem_filterMap.mp h
    unfold Registration.name? at h
    split at h <;> cases h
    next hb => exact ⟨r, hr, by simp [hb, Binding.names]⟩
  simp only [Import.names, Import.gather, mem_append, Option.mem_toList, mem_flatMap, Option.or_eq_some_iff] at h
  obtain ((h | ⟨-, h⟩) | h) | ⟨known, hk, h⟩ := h
  · obtain ⟨r, hr, h⟩ := exists_of_findSome?_eq_some h
    unfold Registration.typeDefault? at h
    split at h
    · exact ⟨r, mem_reverse.mp hr, hd h⟩
    · cases h
  · obtain ⟨r, hr, h⟩ := exists_of_findSome?_eq_some h
    exact ⟨r, hr, hd h⟩
  · obtain ⟨r, hr, h⟩ := exists_of_findSome?_eq_some h
    unfold Registration.whole? at h
    split at h <;> cases h
    next hb => exact ⟨r, hr, by simp [hb, Binding.names]⟩
  · obtain ⟨bound, hb, rfl⟩ := mem_map.mp hk
    obtain ⟨entry, he, rfl⟩ := mem_map.mp (mem_eraseDups.mp hb)
    rcases mem_cons.mp h with rfl | h
    · rw [ImportedName.gather]
      cases hf : ((own.filterMap Registration.name?).filter fun other => other.bound = entry.bound).head? with
      | none => exact (hn he).imp fun r hr => ⟨hr.1, hr.2.2⟩
      | some first => exact (hn (mem_filter.mp (mem_of_head? hf)).1).imp fun r hr => ⟨hr.1, hr.2.1⟩
    · rw [mem_singleton.mp h]
      exact (hn he).imp fun r hr => ⟨hr.1, hr.2.2⟩

/-- The records are spelled as the registrations are. -/
theorem spelled_of_registrations {steps : List Registrar.Step} {record : Import}
    (h : ∀ r ∈ steps.flatMap Registrar.Step.registrations, IsQuotable r.source ∧ ∀ name ∈ r.binding.names, IsWord name)
    (hm : record ∈ (steps.foldl Registrar.apply {}).modules) : record.Spelled := by
  rw [foldl_apply] at hm
  obtain ⟨source, hs, rfl⟩ := mem_modules_ofHistory.mp hm
  refine ⟨fun name hn => ?_, ?_⟩
  · obtain ⟨r, hr, hn⟩ := exists_of_mem_names hn
    exact (h r (mem_filter.mp hr).1).2 name hn
  · obtain ⟨r, hr, rfl⟩ := mem_map.mp hs
    exact (h r hr).1

/-- **Import statements show the records.** After every run of registrations, the statements of a record are read back as
the record itself, if its names are identifiers and its module may stand in quotes. -/
theorem statements_read_back (steps : List Registrar.Step) {record : Import}
    (hmem : record ∈ (steps.foldl Registrar.apply {}).modules) (hspelled : record.Spelled) :
    readModule? record.statements = some record :=
  (shown_of_mem_modules hmem).readModule?_statements hspelled

/-- Values and types of a module, one of them under a name that reads like a mark, and the module as a whole. -/
def crowdedSteps : List Registrar.Step :=
  [.typeNamed "Ref" "vue", .namedAs "as" "type" "vue", .register
    { source := "vue", defaultName := some "type", namespaceName := some "π", named := [⟨"h", "as", false⟩],
      typeOnly := true }]

/-- The record that these make. -/
def crowdedRecord : Import where
  source := "vue"
  defaultName := some "type"
  namespaceName := some "π"
  named := [⟨"Ref", "Ref", true⟩, ⟨"as", "type", false⟩, ⟨"h", "as", true⟩]

/-- The record takes two statements, which show it together. -/
theorem crowded_read_back : crowdedRecord ∈ (crowdedSteps.foldl Registrar.apply {}).modules ∧ crowdedRecord.Spelled ∧
    crowdedRecord.statements = ["import type, \x7b type Ref, as as type, type h as as \x7d from \"vue\";",
      "import * as π from \"vue\";"] ∧
    readModule? crowdedRecord.statements = some crowdedRecord := by
  have hm : crowdedRecord ∈ (crowdedSteps.foldl Registrar.apply {}).modules := by decide
  have hs : crowdedRecord.Spelled := spelled_of_registrations (by decide +kernel) hm
  exact ⟨hm, hs, by decide, statements_read_back crowdedSteps hm hs⟩

end Polyview
