/-! # Orders by dependency

Items with dependencies, given by index, are listed so that an item follows what it depends on. Among the
items that are ready the earliest comes first; when only items on or behind cycles remain, the earliest of
them comes next regardless of what it depends on. -/

namespace Polyview.Order

/-- An item is ready when everything it depends on, itself apart, is listed. -/
def isReady (deps : Array (List Nat)) (listed : List Nat) (i : Nat) : Bool :=
  (deps.getD i []).all fun d => d == i || listed.contains d

/-- The next item: the earliest ready one, or the earliest one. -/
def next? (deps : Array (List Nat)) (listed : List Nat) : Option Nat :=
  let open' := (List.range deps.size).filter fun i => !listed.contains i
  (open'.find? (isReady deps listed)).or open'.head?

def extend (deps : Array (List Nat)) : Nat → List Nat → List Nat
  | 0, listed => listed
  | n + 1, listed =>
    match next? deps listed with
    | some i => extend deps n (i :: listed)
    | none => listed

/-- The order of items whose dependencies are given by index. -/
def stableOrder (deps : List (List Nat)) : List Nat := (extend deps.toArray deps.length []).reverse

/-! ### Indices out of range -/

/-- Whether the search for a ready item meets an index out of range: the dependencies of an item are looked
at in order up to the first one that is not listed. -/
def strays (deps : Array (List Nat)) (listed : List Nat) (i : Nat) : Bool :=
  match (deps.getD i []).find? fun d => !(d == i || listed.contains d) with
  | some d => deps.size ≤ d
  | none => false

def nextStrays (deps : Array (List Nat)) (listed : List Nat) : Bool :=
  let open' := (List.range deps.size).filter fun i => !listed.contains i
  (open'.takeWhile fun i => !isReady deps listed i).any (strays deps listed)

def extendStrays (deps : Array (List Nat)) : Nat → List Nat → Bool
  | 0, _ => false
  | n + 1, listed =>
    nextStrays deps listed ||
      match next? deps listed with
      | some i => extendStrays deps n (i :: listed)
      | none => false

/-- The order of items, if no index out of range is met. -/
def stableOrder? (deps : List (List Nat)) : Option (List Nat) :=
  if extendStrays deps.toArray deps.length [] then none else some (stableOrder deps)

end Polyview.Order
