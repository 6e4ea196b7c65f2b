import LeastContext.Json.Basic

namespace LeastContext.Dump

/-- The fields of a record that are still to be read. They come in any order with their names, or
as a list in the order they are declared. -/
inductive Fields where
  | byName (fields : List (String × Json))
  | inOrder (values : List Json)

abbrev FieldReader := StateT Fields Option

/-- Reads a field, or takes what `absent` says if it is not there. The flag says whether a list may
end before the field. -/
def field (key : String) (absent : Option α) (mayEnd : Bool) (decode : Json → Option α) :
    FieldReader α
  | .byName fields =>
    match fields.lookup key with
    | some value => (decode value).map (·, .byName fields)
    | none => absent.map (·, .byName fields)
  | .inOrder (value :: values) => (decode value).map (·, .inOrder values)
  | .inOrder [] => if mayEnd then absent.map (·, .inOrder []) else none

def nullable (decode : Json → Option α) : Json → Option (Option α)
  | .null => some none
  | value => (decode value).map some

def required (key : String) (decode : Json → Option α) : FieldReader α :=
  field key none false decode

def withDefault (key : String) (default : α) (decode : Json → Option α) : FieldReader α :=
  field key (some default) true decode

def optional (key : String) (decode : Json → Option α) : FieldReader (Option α) :=
  field key (some none) true (nullable decode)

/-- An optional field that a list has to hold all the same. -/
def optionalListed (key : String) (decode : Json → Option α) : FieldReader (Option α) :=
  field key (some none) false (nullable decode)

/-- Reads all fields of a record; a list must hold nothing more. -/
def Fields.readAll (read : FieldReader α) (fields : Fields) : Option α :=
  match read fields with
  | some (_, .inOrder (_ :: _)) => none
  | some (value, _) => some value
  | none => none

def record (read : FieldReader α) : Json → Option α
  | .record fields => Fields.readAll read (.byName fields)
  | .list values => Fields.readAll read (.inOrder values)
  | _ => none

/-- The name of a variant, as a text or by its position among the names. -/
def tag? (names : List String) (numbered : Bool) : Json → Option String
  | .text name => if name ∈ names then some name else none
  | .natural n => if numbered then names[n]? else none
  | _ => none

/-- Reads a tagged record. Numbered tags are accepted only where `numbered` says so. -/
def tagged (key : String) (names : List String) (numbered : Bool)
    (read : String → FieldReader α) : Json → Option α
  | .record fields => do
    let name ← tag? names numbered (← fields.lookup key)
    Fields.readAll (read name) (.byName fields)
  | .list (value :: values) => do
    let name ← tag? names numbered value
    Fields.readAll (read name) (.inOrder values)
  | _ => none

/-- Reads a tagged record whose variant shares one object with other fields. -/
def taggedWithin (key : String) (names : List String)
    (read : String → FieldReader α) : Json → Option α
  | .record fields => do
    let name ← tag? names true (← fields.lookup key)
    Fields.readAll (read name) (.byName fields)
  | _ => none

end LeastContext.Dump
