import LeastContext.Dictionary
import LeastContext.Usage

namespace LeastContext

/-- The place of a tracked variable. -/
structure VarHandle where
  value : UInt32
  deriving DecidableEq, Inhabited, Repr

/-- The place of a record. -/
structure RecordId where
  value : UInt32
  deriving DecidableEq, Inhabited, Repr

structure TrackedVariable where
  object : ObjectId
  record : RecordId
  /-- Cleared when the variable is dropped from tracking. -/
  active : Bool
  deriving DecidableEq, Inhabited, Repr

/-- Tracked variables and their records. A record points at the one it was merged into, or at
itself. -/
structure Tracker where
  entries : Array TrackedVariable
  byObject : Dictionary ObjectId VarHandle
  records : Array Usage
  parents : Array RecordId

namespace Tracker

def new : Tracker :=
  ⟨#[], .empty, #[], #[]⟩

variable (tracker : Tracker)

/-- Starts tracking an object with an empty record of its own, unless it is tracked. -/
def track (object : ObjectId) : VarHandle × Tracker :=
  match tracker.byObject.get? object with
  | some handle => (handle, tracker)
  | none =>
    let record := ⟨tracker.records.size.toUInt32⟩
    let handle := ⟨tracker.entries.size.toUInt32⟩
    (handle, {
      entries := tracker.entries.push ⟨object, record, true⟩
      byObject := tracker.byObject.insert object handle
      records := tracker.records.push .empty
      parents := tracker.parents.push record })

/-- The variable that tracks an object, if it is still tracked. -/
def lookup (object : ObjectId) : Option VarHandle :=
  tracker.byObject.get? object

def tracked? (handle : VarHandle) : Option TrackedVariable :=
  tracker.entries[handle.value.toNat]?

/-- Stops tracking an object, and tells whether it was tracked. Its record stays with those that
share it. -/
def untrack (object : ObjectId) : Option (Bool × Tracker) :=
  match tracker.byObject.get? object with
  | none => some (false, tracker)
  | some handle => do
    let entry ← tracker.tracked? handle
    let entry := { entry with active := false }
    return (true, { tracker with
      entries := tracker.entries.setIfInBounds handle.value.toNat entry
      byObject := tracker.byObject.erase object })

def findWithin : Nat → RecordId → Option RecordId
  | 0, _ => none
  | steps + 1, id => do
    let parent ← tracker.parents[id.value.toNat]?
    if parent = id then return id else findWithin steps parent

/-- The record that a record was merged into in the end. There is none if the pointers go round or
lead nowhere. -/
def find (id : RecordId) : Option RecordId :=
  tracker.findWithin (tracker.parents.size + 1) id

def recordId? (handle : VarHandle) : Option RecordId := do
  tracker.find (← tracker.tracked? handle).record

/-- The record of a variable. -/
def record? (handle : VarHandle) : Option Usage := do
  tracker.records[(← tracker.recordId? handle).value.toNat]?

/-- Changes the record of a variable, for all that share it. -/
def change (edit : Usage → Usage) (handle : VarHandle) : Option Tracker := do
  let id ← tracker.recordId? handle
  let usage ← tracker.records[id.value.toNat]?
  return { tracker with records := tracker.records.setIfInBounds id.value.toNat (edit usage) }

/-- Makes two variables share one record that holds what either held. -/
def share (a b : VarHandle) : Option Tracker := do
  let ra ← tracker.recordId? a
  let rb ← tracker.recordId? b
  if ra = rb then return tracker
  let absorbed ← tracker.records[rb.value.toNat]?
  let emptied := tracker.records.setIfInBounds rb.value.toNat .empty
  let kept ← emptied[ra.value.toNat]?
  return { tracker with
    records := emptied.setIfInBounds ra.value.toNat (kept.merge absorbed)
    parents := tracker.parents.setIfInBounds rb.value.toNat ra }

/-- The variables still tracked, oldest first. -/
def active : List (VarHandle × TrackedVariable) :=
  (tracker.entries.toList.zipIdx.filter (·.1.active)).map fun (entry, i) => (⟨i.toUInt32⟩, entry)

/-- How many variables are tracked. -/
def size : Nat :=
  tracker.byObject.size

/-- How many records the tracked variables have among them. -/
def recordCount? : Option Nat := do
  let ids ← tracker.active.mapM fun (handle, _) => tracker.recordId? handle
  return ids.eraseDups.length

end Tracker

end LeastContext
