/-! # JSON values

The values that descriptions of components are exchanged in. The fields of an object keep their order,
and a field is looked up by its first occurrence. -/

namespace Polyview

/-- A JSON value. A number is its digits and how many of them follow the point. -/
inductive Json
  | null
  | bool (value : Bool)
  | number (digits : Int) (places : Nat)
  | str (value : String)
  | arr (items : List Json)
  | obj (fields : List (String × Json))
deriving Repr, Inhabited

namespace Json

mutual
def size : Json → Nat
  | .arr items => 1 + sizeItems items
  | .obj fields => 1 + sizeFields fields
  | _ => 1

def sizeItems : List Json → Nat
  | [] => 0
  | item :: rest => item.size + sizeItems rest

def sizeFields : List (String × Json) → Nat
  | [] => 0
  | (_, value) :: rest => value.size + sizeFields rest
end

/-! ### Writing -/

def ofOption : Option String → Json
  | some value => .str value
  | none => .null

def ofStrings (values : List String) : Json := .arr (values.map .str)

/-! ### Reading -/

def field? (name : String) : Json → Option Json
  | .obj fields => (fields.find? fun entry => entry.1 == name).map Prod.snd
  | _ => none

def str? : Json → Option String
  | .str value => some value
  | _ => none

def bool? : Json → Option Bool
  | .bool value => some value
  | _ => none

def items? : Json → Option (List Json)
  | .arr items => some items
  | _ => none

def strField? (json : Json) (name : String) : Option String := (json.field? name).bind str?

def boolField? (json : Json) (name : String) : Option Bool := (json.field? name).bind bool?

/-- The text of a field that may be missing or null. -/
def optionField? (json : Json) (name : String) : Option (Option String) :=
  match json.field? name with
  | none | some .null => some none
  | some value => value.str?.map some

/-- The items of a required list field, each read by `read`. -/
def listField? {α : Type} (json : Json) (name : String) (read : Json → Option α) : Option (List α) :=
  ((json.field? name).bind items?).bind fun items => items.mapM read

end Json

end Polyview
