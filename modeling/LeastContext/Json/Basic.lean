import LeastContext.Decimal

namespace LeastContext

/-- A number written with digits alone is a natural number, and any other one keeps its literal. -/
inductive Json where
  | null
  | bool (value : Bool)
  | natural (value : Nat)
  | number (literal : String)
  | text (value : String)
  /-- A string that spells no text, since it holds half of a surrogate pair, or a record with such a
  key. -/
  | garbled
  | list (items : List Json)
  | record (fields : List (String × Json))
  deriving Inhabited

namespace Json

mutual
/-- How many lists and records are open at the deepest point of a value. -/
def depth : Json → Nat
  | .list items => itemsDepth items + 1
  | .record fields => fieldsDepth fields + 1
  | _ => 0

def itemsDepth : List Json → Nat
  | [] => 0
  | item :: items => max (depth item) (itemsDepth items)

def fieldsDepth : List (String × Json) → Nat
  | [] => 0
  | (_, value) :: fields => max (depth value) (fieldsDepth fields)
end

/-- Whether a number is within the range of a double. -/
def inRange : Json → Bool
  | .natural value => value < UInt64.size || !(Decimal.ofNat value).isBeyondDoubleRoughly
  | .number literal => !(Decimal.ofLiteral literal.toList).isBeyondDoubleRoughly
  | _ => true

mutual
/-- Whether everything in a value has a meaning: its strings spell texts and its numbers are in
range. -/
def isSound : Json → Bool
  | .garbled => false
  | .list items => itemsSound items
  | .record fields => fieldsSound fields
  | value => inRange value

def itemsSound : List Json → Bool
  | [] => true
  | item :: items => isSound item && itemsSound items

def fieldsSound : List (String × Json) → Bool
  | [] => true
  | (_, value) :: fields => isSound value && fieldsSound fields
end

/-- The value under a key of a record. -/
def get? (key : String) : Json → Option Json
  | .record fields => fields.lookup key
  | _ => none

def ofOption (encode : α → Json) : Option α → Json
  | none => .null
  | some value => encode value

def ofList (encode : α → Json) (values : List α) : Json :=
  .list (values.map encode)

def asBool? : Json → Option Bool
  | .bool value => some value
  | _ => none

def asText? : Json → Option String
  | .text value => some value
  | _ => none

/-- A natural number below a bound. -/
def asNatBelow? (bound : Nat) : Json → Option Nat
  | .natural value => if value < bound then some value else none
  | _ => none

def asList? (decode : Json → Option α) : Json → Option (List α)
  | .list items => items.mapM decode
  | _ => none

end Json

end LeastContext
