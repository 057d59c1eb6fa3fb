/-! # Blank characters

A character is blank when it has the Unicode property White_Space. Trimming removes blank characters
from one or both ends of a text, and a text is blank when nothing is left of it. -/

namespace Polyview.Text

/-- The characters with the Unicode property White_Space. -/
def isBlank (c : Char) : Bool :=
  let n := c.toNat
  (9 ≤ n && n ≤ 13) || n == 0x20 || n == 0x85 || n == 0xA0 || n == 0x1680 ||
    (0x2000 ≤ n && n ≤ 0x200A) || n == 0x2028 || n == 0x2029 || n == 0x202F || n == 0x205F ||
    n == 0x3000

def trimStartChars (cs : List Char) : List Char := cs.dropWhile isBlank

def dropEndWhile (p : Char → Bool) (cs : List Char) : List Char := (cs.reverse.dropWhile p).reverse

def trimEndChars (cs : List Char) : List Char := dropEndWhile isBlank cs

def trimChars (cs : List Char) : List Char := trimEndChars (trimStartChars cs)

def isBlankChars (cs : List Char) : Bool := cs.all isBlank

def trim (s : String) : String := String.ofList (trimChars s.toList)

def isBlankText (s : String) : Bool := isBlankChars s.toList

def ink (cs : List Char) : Nat := cs.countP fun c => !isBlank c

/-- The maximal runs of characters that are not blank, with the run under construction in `run`. -/
def wordsFrom (run : List Char) : List Char → List (List Char)
  | [] => if run.isEmpty then [] else [run.reverse]
  | c :: cs =>
    if isBlank c then
      if run.isEmpty then wordsFrom [] cs else run.reverse :: wordsFrom [] cs
    else wordsFrom (c :: run) cs

def words (s : String) : List String := (wordsFrom [] s.toList).map String.ofList

end Polyview.Text
