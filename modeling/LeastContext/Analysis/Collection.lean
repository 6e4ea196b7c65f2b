import LeastContext.Composition
import LeastContext.Ledger
import LeastContext.Settings.Basic
import LeastContext.Syntax.Node

namespace LeastContext

/-- Whether the search for variables goes below a node. -/
def Node.isSearched : Node → Bool
  | .genDecl d => d.kind ≠ .types
  | .expr ⟨.funcType _, _⟩ => false
  | _ => true

def Node.defined? : Node → Option ObjectId
  | .ident i => i.defined?
  | _ => none

open Evaluation

namespace Program

/-- The objects declared where variables are searched for, in source order. -/
def declaredObjects (p : Program) : List ObjectId :=
  p.files.flatMap fun file => ((Node.file file).walk Node.isSearched).filterMap Node.defined?

section Queries

variable {m : Type → Type} [Evaluation m] (p : Program) (settings : Settings)

/-- Whether a type is the base context itself. -/
def isBaseM (id : TypeId) : m Bool :=
  p.isTypeM id settings.baseContext.path settings.baseContext.name

/-- Whether a type is a context with a capability besides the base context. -/
def isCapableM (id : TypeId) : m Bool := do
  if ← p.isContextM settings.baseContext.path settings.baseContext.name id then
    match ← p.leafGroupsM id with
    | [] => return false
    | [only] => return !(← p.isBaseM settings only)
    | _ => return true
  else return false

def isTrackableM (id : ObjectId) : m Bool := do
  let object ← p.objectM id
  if object.name != "_" && object.isVariable then
    match object.type with
    | some type => p.isCapableM settings type
    | none => return false
  else return false

/-- The ledger of all trackable variables. Type declarations are not searched for them, nor are
function types other than the signature of a function declaration or literal. -/
def collectM : m Ledger := do
  return (← keep (p.isTrackableM settings) p.declaredObjects).foldl Ledger.track .empty

end Queries

section Plain

variable (p : Program) (settings : Settings)

def isBase (id : TypeId) : Bool :=
  Id.run (p.isBaseM settings id)

def isCapable (id : TypeId) : Bool :=
  Id.run (p.isCapableM settings id)

def isTrackable (id : ObjectId) : Bool :=
  Id.run (p.isTrackableM settings id)

def collect : Ledger :=
  Id.run (p.collectM settings)

theorem isBase_def (id : TypeId) :
    p.isBase settings id = p.isType id settings.baseContext.path settings.baseContext.name :=
  rfl

theorem isCapable_def (id : TypeId) :
    p.isCapable settings id =
      (p.isContext settings.baseContext.path settings.baseContext.name id &&
        match p.leafGroups id with
        | [] => false
        | [only] => !p.isBase settings only
        | _ => true) := by
  rw [isCapable, isCapableM]
  change (if p.isContext _ _ id then _ else _) = _
  cases p.isContext settings.baseContext.path settings.baseContext.name id <;> rfl

theorem isTrackable_def (id : ObjectId) :
    p.isTrackable settings id =
      ((p.object id).name != "_" && (p.object id).isVariable &&
        (p.object id).type.any (p.isCapable settings)) := by
  rw [isTrackable, isTrackableM]
  change (if (p.object id).name != "_" && (p.object id).isVariable then
    match (p.object id).type with
    | some type => p.isCapable settings type
    | none => false
    else false) = _
  cases (p.object id).name != "_" && (p.object id).isVariable with
  | false => rfl
  | true => cases (p.object id).type <;> rfl

theorem collect_def :
    p.collect settings =
      (p.declaredObjects.filter (p.isTrackable settings)).foldl Ledger.track .empty := by
  rw [collect, collectM]
  simp only [keep_plain]
  rfl

end Plain

end Program

end LeastContext
