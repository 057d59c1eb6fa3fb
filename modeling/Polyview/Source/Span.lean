import Polyview.Text.Bytes

/-! # Spans

A span is a range of byte offsets of a text. -/

namespace Polyview

structure Span where
  start : Nat
  stop : Nat
deriving DecidableEq, Repr, Inhabited

def Span.within (inner outer : Span) : Bool := outer.start ≤ inner.start && inner.stop ≤ outer.stop

/-- The text of a span, provided that both its ends are ends of characters. -/
def Span.text? (source : List Char) (span : Span) : Option (List Char) :=
  match Text.splitBytes? span.start source with
  | some (_, rest) => (Text.splitBytes? (span.stop - span.start) rest).map Prod.fst
  | none => none

/-- The text of a span, and nothing for a span that does not fit the source. -/
def Span.chars (source : List Char) (span : Span) : List Char := (span.text? source).getD []

def Span.text (source : List Char) (span : Span) : String := String.ofList (span.chars source)

end Polyview
