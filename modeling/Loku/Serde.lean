import Loku.Media.Sidecars

/-!
# Reading structs from JSON

How a derived reader finds the fields of a struct, and the values it takes for them.
-/

namespace Loku

namespace Serde

variable {α : Type}

/-- A field of a struct: of an object by its name, which may come once only; of an array by its
place, where all the fields have to be there. -/
def structField (names : List String) (name : String) : Json → Option (Option Json)
  | .object fields =>
    match fields.filter fun f => f.1 == name with
    | [] => some none
    | [f] => some (some f.2)
    | _ => none
  | .array items =>
    if items.length = names.length then some items[names.idxOf name]? else none
  | _ => none

/-- An optional value. -/
def nullable (read : Json → Option α) : Json → Option (Option α)
  | .null => some none
  | json => (read json).map some

/-- A field with an optional value. -/
def optionField (names : List String) (name : String) (read : Json → Option α) (json : Json) :
    Option (Option α) :=
  (structField names name json).bind fun value => (value.map (nullable read)).getD (some none)

def i64 : Json → Option Int
  | .number (.posInt n) => if (n : Int) ≤ i64Max then some n else none
  | .number (.negInt n) => some n
  | _ => none

def vec (read : Json → Option α) : Json → Option (List α)
  | .array items => items.mapM read
  | _ => none

end Serde

end Loku
