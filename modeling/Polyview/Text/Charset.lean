import Polyview.Text.Table.CaseMapping
import Polyview.Text.Table.Property

/-! # Classes of characters

Membership in the Unicode properties that decide how names are cased, which characters continue an
identifier and what counts as a digit. The tables cover what lies above the ASCII range; below it each
class is written out. -/

namespace Polyview.Text

/-- Whether `n` is in the set with the given lengths of gaps and runs. -/
def inRuns : List Nat → Nat → Bool
  | gap :: run :: rest, n => gap ≤ n && (n < gap + run || inRuns rest (n - (gap + run)))
  | _, _ => false

/-- Whether a run `(first, last, step, image)` of a case mapping holds `n`. -/
def inRun (n : Nat) (run : Nat × Nat × Nat × Nat) : Bool := run.1 ≤ n && n ≤ run.2.1 && (n - run.1) % run.2.2.1 == 0

def isAsciiUpper (c : Char) : Bool := 'A' ≤ c && c ≤ 'Z'

def isAsciiLower (c : Char) : Bool := 'a' ≤ c && c ≤ 'z'

def isAsciiDigit (c : Char) : Bool := '0' ≤ c && c ≤ '9'

def isAsciiAlphanumeric (c : Char) : Bool := isAsciiUpper c || isAsciiLower c || isAsciiDigit c

/-- The characters below U+0080. -/
def isAscii (c : Char) : Bool := c.toNat < 0x80

/-- The property Alphabetic, above the ASCII range. Four signs may start an identifier without it. -/
def isAlphabetic (n : Nat) : Bool :=
  inRuns Table.identifierStart n && !List.contains [0x2118, 0x212E, 0x309B, 0x309C] n || inRuns Table.otherAlphabetic n

/-- Letters and numbers: the property Alphabetic or a number category. -/
def isAlphanumeric (c : Char) : Bool :=
  if isAscii c then isAsciiAlphanumeric c
  else isAlphabetic c.toNat || inRuns Table.decimalDigit c.toNat || inRuns Table.otherNumber c.toNat

def isDecimalDigit (c : Char) : Bool := if isAscii c then isAsciiDigit c else inRuns Table.decimalDigit c.toNat

def isTitlecase (c : Char) : Bool := inRuns Table.titlecase c.toNat

def isUpper (c : Char) : Bool :=
  if isAscii c then isAsciiUpper c
  else Table.toLower.any (inRun c.toNat) && !isTitlecase c || inRuns Table.otherUppercase c.toNat

def isLower (c : Char) : Bool :=
  if isAscii c then isAsciiLower c
  else Table.toUpper.any (inRun c.toNat) && !isTitlecase c || inRuns Table.otherLowercase c.toNat

def isCased (c : Char) : Bool := isUpper c || isLower c || isTitlecase c

def isCaseIgnorable (c : Char) : Bool := inRuns Table.caseIgnorable c.toNat

def isIdentifierStart (c : Char) : Bool :=
  if isAscii c then isAsciiUpper c || isAsciiLower c || c == '$' || c == '_'
  else inRuns Table.identifierStart c.toNat

/-- The characters that may continue an identifier of a script: those that start one, digits,
combining marks and the two joiners. -/
def isIdentifierPart (c : Char) : Bool :=
  if isAscii c then isAsciiAlphanumeric c || c == '$' || c == '_'
  else inRuns Table.identifierStart c.toNat || inRuns Table.decimalDigit c.toNat ||
    inRuns Table.identifierMark c.toNat || c.toNat == 0x200C || c.toNat == 0x200D

end Polyview.Text
