import Polyview.Css.Atom
import Polyview.Text.Blank
import Polyview.Text.Digest
import Polyview.Text.Lines
import Polyview.Text.Replace

/-! # Rules of a stylesheet

A stylesheet is a sequence of rules. Style rules have a selector list and a body, grouping rules hold
rules again, and everything else is kept as written. Scoping confines every style rule, at any depth of
grouping, to the elements that carry a scope attribute and their descendants. -/

namespace Polyview.Css

open Text

/-- A selector: what selects an element, and the pseudo-element behind it from its `::` on. -/
structure Selector where
  base : List Char
  pseudo : List Char
deriving DecidableEq, Repr

inductive Rule
  /-- A rule that is kept as written: a statement, an at-rule with a block of its own, or an unfinished
  rule. -/
  | verbatim (text : List Char)
  | style (selectors : List Selector) (body : List Char)
  /-- An at-rule whose block holds rules. -/
  | group (prelude : List Char) (rules : List Rule)
deriving Repr

def groupingRules : List (List Char) := ["@media".toList, "@supports".toList, "@container".toList, "@layer".toList]

def isGrouping (prelude : List Char) : Bool := groupingRules.any fun name => name.isPrefixOf prelude

/-! ### Reading -/

/-- Reads a selector. Pseudo-elements start at the first `::`. -/
def readSelector (text : List Char) : Selector :=
  let text := trimChars text
  match splitAtFirst? [':', ':'] text with
  | some (base, pseudo) => ⟨trimChars base, pseudo⟩
  | none => ⟨text, []⟩

/-- Reads the selectors separated by commas outside brackets; there are at most `fuel` commas. -/
def readSelectors : Nat → List Atom → List Selector
  | 0, atoms => [readSelector (textOf atoms)]
  | fuel + 1, atoms =>
    match splitTopLevel? [','] 0 atoms with
    | some (first, _, rest) => readSelector (textOf first) :: readSelectors fuel rest
    | none => [readSelector (textOf atoms)]

def dropBlankAtoms (atoms : List Atom) : List Atom :=
  atoms.dropWhile fun
    | .sign c => isBlank c
    | .sealed _ => false

/-- Reads the rules of a list of atoms that does not start with a blank; there are at most `fuel` of them,
nested ones included. -/
def readRules : Nat → List Atom → List Rule
  | 0, _ => []
  | _ + 1, [] => []
  | fuel + 1, atoms =>
    match splitTopLevel? ['{', ';'] 0 atoms with
    | none => [.verbatim (textOf atoms)]
    | some (before, stop, rest) =>
      if stop == ';' then
        .verbatim (textOf before ++ [';']) :: readRules fuel (dropBlankAtoms rest)
      else
        match splitBlock? 0 rest with
        | none => [.verbatim (textOf atoms)]
        | some (body, after) =>
          let prelude := trimChars (textOf before)
          let rule :=
            if isGrouping prelude then
              .group prelude (readRules fuel (atomsOf (trimChars (textOf body))))
            else if prelude.head? == some '@' then
              .verbatim (textOf before ++ '{' :: textOf body ++ ['}'])
            else .style (readSelectors prelude.length (atomsOf prelude)) (textOf body)
          rule :: readRules fuel (dropBlankAtoms after)

def rulesOf (css : List Char) : List Rule :=
  let css := trimChars css
  readRules (css.length + 1) (atomsOf css)

/-! ### Scoping -/

def scopeSelector (scope : List Char) : List Char :=
  ":where([".toList ++ scope ++ "], [".toList ++ scope ++ "] *)".toList

/-- A selector confined by another. Pseudo-elements cannot stand inside `:is()`, so they follow it. -/
def Selector.scoped (lead : List Char) (s : Selector) : List Char :=
  if s.base.isEmpty then lead ++ s.pseudo else lead ++ ":is(".toList ++ s.base ++ ')' :: s.pseudo

mutual
def Rule.scoped (lead : List Char) : Rule → List Char
  | .verbatim text => text
  | .style selectors body => joinChars [',', ' '] (selectors.map (Selector.scoped lead)) ++ ' ' :: '{' :: body ++ ['}']
  | .group prelude rules => prelude ++ ' ' :: '{' :: ' ' :: joinChars [' '] (scopedRules lead rules) ++ [' ', '}']

def scopedRules (lead : List Char) : List Rule → List (List Char)
  | [] => []
  | rule :: rest => rule.scoped lead :: scopedRules lead rest
end

/-- Confines every style rule to the elements with the attribute `scope` and their descendants. -/
def scopeStyles (scope styles : String) : String :=
  String.ofList (joinChars [' '] (scopedRules (scopeSelector scope.toList) (rulesOf styles.toList)))

/-! ### Scope attributes -/

def scopeLead : String := "data-tsr-"

/-- The scope attribute of a component's styles: it depends on the name and the styles alone. -/
def scopeId (component styles : String) : String :=
  let bytes := component.toUTF8.toList ++ 0 :: styles.toUTF8.toList
  scopeLead ++ String.ofList ((Digest.hexDigest bytes).take 8)

end Polyview.Css
