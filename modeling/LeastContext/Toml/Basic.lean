namespace LeastContext.Toml

/-- How a table came into a document. -/
inductive Origin where
  /-- Opened by a header of its own. -/
  | header
  /-- On the way to a table with a header. -/
  | implied
  /-- On the way to a value under a dotted key. -/
  | dotted
  /-- Written out in braces, and so complete. -/
  | inline
  deriving DecidableEq, Inhabited, Repr

inductive Value where
  | text (value : String)
  | boolean (value : Bool)
  | number (literal : String)
  | dateTime (literal : String)
  | array (items : List Value)
  /-- Tables with headers in double brackets, the last one still open. -/
  | tables (items : List (List (String × Value)))
  | table (origin : Origin) (fields : List (String × Value))
  deriving Inhabited, Repr

abbrev Fields := List (String × Value)

/-- Replaces the value under a key, or adds it at the end. -/
def put (key : String) (value : Value) : Fields → Fields
  | [] => [(key, value)]
  | (k, v) :: fields => if k = key then (k, value) :: fields else (k, v) :: put key value fields

/-- Changes the last of some tables. -/
def changeLast (change : Fields → Option Fields) : List Fields → Option (List Fields)
  | [] => none
  | [last] => (change last).map fun last => [last]
  | first :: others => (changeLast change others).map (first :: ·)

/-- Puts a value under a dotted key. The table that holds the last part of the key must be one made
by dotted keys, or new. On the way to it, tables implied by a header and the last of several tables
may be passed as well. No key may be set twice. -/
def assign? (value : Value) : List String → Fields → Option Fields
  | [], _ => none
  | [key], fields =>
    match fields.lookup key with
    | none => some (fields ++ [(key, value)])
    | some _ => none
  | key :: keys, fields =>
    match fields.lookup key with
    | none => (assign? value keys []).map fun inner => fields ++ [(key, .table .dotted inner)]
    | some (.table .dotted inner) =>
      (assign? value keys inner).map fun inner => put key (.table .dotted inner) fields
    | some (.table .implied inner) =>
      if keys.length = 1 then none
      else (assign? value keys inner).map fun inner => put key (.table .implied inner) fields
    | some (.tables items) =>
      if keys.length = 1 then none
      else (changeLast (assign? value keys) items).map fun items => put key (.tables items) fields
    | some _ => none

/-- Changes the fields of the table at a path, making the tables on the way to it. -/
def within? (change : Fields → Option Fields) : List String → Fields → Option Fields
  | [], fields => change fields
  | key :: keys, fields =>
    match fields.lookup key with
    | none => (within? change keys []).map fun inner => fields ++ [(key, .table .implied inner)]
    | some (.table .inline _) => none
    | some (.table origin inner) =>
      (within? change keys inner).map fun inner => put key (.table origin inner) fields
    | some (.tables items) =>
      (changeLast (within? change keys) items).map fun items => put key (.tables items) fields
    | some _ => none

/-- Opens the table of a header, which must not have been opened before. -/
def openTable? (key : String) (fields : Fields) : Option Fields :=
  match fields.lookup key with
  | none => some (fields ++ [(key, .table .header [])])
  | some (.table .implied inner) => some (put key (.table .header inner) fields)
  | some _ => none

/-- Opens one more of the tables of a header in double brackets. -/
def openNext? (key : String) (fields : Fields) : Option Fields :=
  match fields.lookup key with
  | none => some (fields ++ [(key, .tables [[]])])
  | some (.tables items) => some (put key (.tables (items ++ [[]])) fields)
  | some _ => none

end LeastContext.Toml
