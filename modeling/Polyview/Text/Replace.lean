/-! # Replacement

Replacing every occurrence of a text, from left to right and without overlaps. -/

namespace Polyview.Text

/-- Replaces the occurrences of `pat` behind the next `skip` characters, which belong to an occurrence
already replaced. -/
def replaceFrom (pat rep : List Char) : Nat → List Char → List Char
  | _, [] => []
  | skip + 1, _ :: cs => replaceFrom pat rep skip cs
  | 0, c :: cs =>
    if pat.isPrefixOf (c :: cs) then rep ++ replaceFrom pat rep (pat.length - 1) cs
    else c :: replaceFrom pat rep 0 cs

/-- Replaces every occurrence of the text `pat`, which is not empty, by `rep`. -/
def replaceAll (pat rep s : String) : String := String.ofList (replaceFrom pat.toList rep.toList 0 s.toList)

/-- The text in front of the first occurrence of `pat` and the text from it on. -/
def splitAtFirst? (pat : List Char) : List Char → Option (List Char × List Char)
  | [] => if pat.isEmpty then some ([], []) else none
  | c :: cs =>
    if pat.isPrefixOf (c :: cs) then some ([], c :: cs)
    else (splitAtFirst? pat cs).map fun (before, after) => (c :: before, after)

/-- The rest of a text behind `pat`, if the text starts with it. -/
def dropLead? (pat cs : List Char) : Option (List Char) := if pat.isPrefixOf cs then some (cs.drop pat.length) else none

/-- The text in front of `pat`, if the text ends with it. -/
def dropTrail? (pat cs : List Char) : Option (List Char) := (dropLead? pat.reverse cs.reverse).map List.reverse

end Polyview.Text
