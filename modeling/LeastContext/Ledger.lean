import LeastContext.Usage

namespace LeastContext

/-- The place of a variable in a ledger. -/
structure VarId where
  index : Nat
  deriving DecidableEq, Inhabited, Repr

structure Variable where
  object : ObjectId
  /-- Cleared when the variable is dropped from tracking. -/
  active : Bool
  parent : VarId
  usage : Usage
  deriving DecidableEq, Inhabited, Repr

/-- Tracked variables, each at its place for good. Variables may share a record: each points at
another one or, where the record is kept, at itself. -/
structure Ledger where
  entries : Array Variable
  deriving DecidableEq, Inhabited, Repr

namespace Ledger

def empty : Ledger :=
  ⟨#[]⟩

variable (ledger : Ledger)

def variableAt (v : VarId) : Variable :=
  ledger.entries.getD v.index default

/-- The variable that tracks an object, if it is still tracked. -/
def lookup (object : ObjectId) : Option VarId :=
  (ledger.entries.findIdx? fun v => v.active && v.object = object).map .mk

/-- Starts tracking an object with an empty record of its own. -/
def track (object : ObjectId) : Ledger :=
  match ledger.lookup object with
  | some _ => ledger
  | none =>
    let v := ⟨ledger.entries.size⟩
    ⟨ledger.entries.push { object, active := true, parent := v, usage := .empty }⟩

/-- Stops tracking an object; its record stays with those that share it. -/
def untrack (object : ObjectId) : Ledger :=
  match ledger.lookup object with
  | some v => ⟨ledger.entries.modify v.index fun entry => { entry with active := false }⟩
  | none => ledger

def rootWithin : Nat → VarId → VarId
  | 0, v => v
  | steps + 1, v =>
    let parent := (ledger.variableAt v).parent
    if parent = v then v else rootWithin steps parent

/-- The variable that keeps the record of a variable. -/
def root (v : VarId) : VarId :=
  ledger.rootWithin ledger.entries.size v

/-- The record of a variable. -/
def usage (v : VarId) : Usage :=
  (ledger.variableAt (ledger.root v)).usage

/-- Changes the record of a variable, for all that share it. -/
def record (change : Usage → Usage) (v : VarId) : Ledger :=
  ⟨ledger.entries.modify (ledger.root v).index fun entry =>
    { entry with usage := change entry.usage }⟩

/-- Makes two variables share one record that holds what either held. -/
def share (a b : VarId) : Ledger :=
  let ra := ledger.root a
  let rb := ledger.root b
  if ra = rb then ledger
  else
    let absorbed := (ledger.variableAt rb).usage
    ⟨(ledger.entries.modify ra.index fun entry =>
        { entry with usage := entry.usage.merge absorbed }).modify rb.index fun entry =>
        { entry with parent := ra, usage := .empty }⟩

/-- The variables still tracked, oldest first. -/
def active : List VarId :=
  ((List.range ledger.entries.size).map VarId.mk).filter fun v => (ledger.variableAt v).active

/-- How many variables are tracked. -/
def size : Nat :=
  ledger.active.length

/-- How many records the tracked variables have among them. -/
def recordCount : Nat :=
  (ledger.active.map ledger.root).eraseDups.length

end Ledger

end LeastContext
