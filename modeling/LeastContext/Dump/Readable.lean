import LeastContext.Json.Basic

namespace LeastContext.Dump

/-- Lists and records that are read nest at most this deep, counted from the program. -/
def nestingLimit : Nat := 127

/-- Whether a part that has so many levels around it can be taken in as a whole. -/
def isWhole (around : Nat) (value : Json) : Bool :=
  around + value.depth ≤ nestingLimit && value.isSound

/-- The items under a field of a record, which may also be written as a list of its fields. -/
def itemsAt (key : String) (index : Nat) (value : Json) : List Json :=
  let field? :=
    match value with
    | .record fields => fields.lookup key
    | .list values => values[index]?
    | _ => none
  match field? with
  | some (.list items) => items
  | _ => []

/-- The fields of an object that are read at once, whatever its kind. -/
def objectFields : List String :=
  ["name", "package", "ty", "pos"]

def isReadableObject : Json → Bool
  | .record fields => fields.all fun (key, value) => key ∈ objectFields || isWhole 3 value
  | _ => true

/-- Types, declarations and some fields of objects are taken in as a whole before it is known which
of their fields have a meaning, so all of them must make sense. -/
def isReadable (program : Json) : Bool :=
  (itemsAt "types" 2 program).all (isWhole 2) &&
    (itemsAt "objects" 3 program).all isReadableObject &&
    (itemsAt "files" 4 program).all fun file => (itemsAt "decls" 2 file).all (isWhole 4)

end LeastContext.Dump
