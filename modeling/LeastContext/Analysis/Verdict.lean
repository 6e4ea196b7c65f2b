import LeastContext.Composition
import LeastContext.Type.Satisfaction
import LeastContext.Usage

namespace LeastContext

inductive ProblemKind where
  | allUnused
  | unrequested
  | unused
  deriving DecidableEq, Inhabited, Repr

/-- The type a variable is declared with, the package it is declared in, and the interfaces it
thereby asks for by name. -/
structure Request where
  declared : TypeId
  home : Option PackageId
  named : List TypeId
  deriving DecidableEq, Inhabited, Repr

structure Problems where
  /-- No capability group of the declared type was used. -/
  allUnused : Bool
  unused : List TypeId
  unrequested : List TypeId
  cached : Bool
  deriving DecidableEq, Inhabited, Repr

/-- The problem to report: nothing used, before not asked for, before not used. A cached variable
that looks idle is left alone, since the cache may need its capabilities to make keys. -/
def Problems.primary (problems : Problems) : Option (ProblemKind × List TypeId) :=
  if problems.allUnused && !problems.cached then some (.allUnused, [])
  else if !problems.unrequested.isEmpty then some (.unrequested, problems.unrequested)
  else if problems.allUnused then none
  else if !problems.unused.isEmpty then some (.unused, problems.unused)
  else none

open Evaluation

namespace Program

section Queries

variable {m : Type → Type} [Evaluation m] (p : Program)

/-- What an object asks for; an object without a type asks for nothing that could be checked. -/
def requestM (id : ObjectId) : m (Option Request) := do
  let object ← p.objectM id
  match object.type with
  | some declared =>
    return some ⟨declared, object.package, ← p.explicitCompositionM object.package declared⟩
  | none => return none

/-- Whether a capability group was used: as an interface that implements it, or by a call of one of
its own methods. -/
def isUsedM (usage : Usage) (leaf : TypeId) : m Bool := do
  match ← p.interfaceM leaf with
  | none => return true
  | some body =>
    if ← usage.interfaces.anyM (p.implementsM · leaf) then return true
    else return usage.methods.any body.declares

/-- The parts that stand for a named interface as seen from its own package, itself apart. -/
def namedPartsM (id : TypeId) : m (List TypeId) := do
  match ← p.namedM id with
  | some decl => return (← p.explicitCompositionM decl.package id).filter (· ≠ id)
  | none => return []

/-- An interface literal with methods of its own. -/
def isInlineWithMethodsM (id : TypeId) : m Bool := do
  match ← p.formM id with
  | .interface body => return !body.methods.isEmpty
  | _ => return false

/-- An interface that the declared type does not satisfy is reached by an assertion only. -/
def isAssertedM (request : Request) (id : TypeId) : m Bool := do
  if ← p.isInterfaceM id then return !(← p.implementsM request.declared id)
  else return false

def isRequestedWithinM (request : Request) : Nat → TypeId → m Bool
  | 0, _ => fault .endless false
  | depth + 1, id => do
    if ← p.isAssertedM request id then return true
    else if ← p.isInlineWithMethodsM id then return true
    else if id ∈ request.named then return true
    else
      match ← p.namedPartsM id with
      | [] => return false
      | parts => parts.allM (isRequestedWithinM request depth)

/-- Whether an interface counts as asked for: the declared type does not satisfy it, so that it was
reached by an assertion; or it is a literal with methods, which are not checked; or it is asked for
by name; or all its parts are. -/
def isRequestedM (request : Request) (id : TypeId) : m Bool :=
  p.isRequestedWithinM request (p.types.size + 1) id

def isMethodRequestedM (request : Request) (method : String) : m Bool := do
  (← p.explicitlyContainingM method request.declared).anyM (p.isRequestedM request)

def unusedGroupsM (request : Request) (usage : Usage) : m (List TypeId) := do
  keep (fun leaf => return !(← p.isUsedM usage leaf)) (← p.leafGroupsM request.declared)

/-- The parts of a type used that are not asked for. -/
def unrequestedPartsM (request : Request) (used : TypeId) : m (List TypeId) := do
  keep (fun part => return !(← p.isRequestedM request part))
    (← p.explicitCompositionM request.home used)

/-- The interfaces of a method called, unless one of them is asked for. -/
def unrequestedMethodM (request : Request) (method : String) : m (List TypeId) := do
  if ← p.isMethodRequestedM request method then return []
  else p.explicitlyContainingM method request.declared

/-- The interfaces used without being asked for: the parts of the types used, then the interfaces of
the methods called. -/
def unrequestedUsesM (request : Request) (usage : Usage) : m (List TypeId) := do
  let parts ← usage.interfaces.mapM (p.unrequestedPartsM request)
  let methods ← usage.methods.mapM (p.unrequestedMethodM request)
  return parts.flatten ++ methods.flatten

def problemsM (request : Request) (usage : Usage) : m Problems := do
  let leaves ← p.leafGroupsM request.declared
  let unused ← p.unusedGroupsM request usage
  let unrequested ← p.unrequestedUsesM request usage
  return {
    allUnused := !leaves.isEmpty && unused.length == leaves.length
    unused, unrequested
    cached := usage.cached }

end Queries

section Plain

variable (p : Program)

def request? (id : ObjectId) : Option Request :=
  Id.run (p.requestM id)

def isUsed (usage : Usage) (leaf : TypeId) : Bool :=
  Id.run (p.isUsedM usage leaf)

def namedParts (id : TypeId) : List TypeId :=
  Id.run (p.namedPartsM id)

def isInlineWithMethods (id : TypeId) : Bool :=
  Id.run (p.isInlineWithMethodsM id)

def isAsserted (request : Request) (id : TypeId) : Bool :=
  Id.run (p.isAssertedM request id)

def isRequestedWithin (request : Request) (depth : Nat) (id : TypeId) : Bool :=
  Id.run (p.isRequestedWithinM request depth id)

def isRequested (request : Request) (id : TypeId) : Bool :=
  Id.run (p.isRequestedM request id)

def isMethodRequested (request : Request) (method : String) : Bool :=
  Id.run (p.isMethodRequestedM request method)

def unusedGroups (request : Request) (usage : Usage) : List TypeId :=
  Id.run (p.unusedGroupsM request usage)

def unrequestedUses (request : Request) (usage : Usage) : List TypeId :=
  Id.run (p.unrequestedUsesM request usage)

def problems (request : Request) (usage : Usage) : Problems :=
  Id.run (p.problemsM request usage)

theorem request?_def (id : ObjectId) :
    p.request? id =
      (p.object id).type.map fun declared =>
        { declared
          home := (p.object id).package
          named := p.explicitComposition (p.object id).package declared } := by
  rw [request?, requestM]
  change Id.run (match (p.object id).type with | some _ => _ | none => _) = _
  cases (p.object id).type <;> rfl

theorem isUsed_def (usage : Usage) (leaf : TypeId) :
    p.isUsed usage leaf =
      match p.interface? leaf with
      | none => true
      | some body =>
        usage.interfaces.any (p.implements · leaf) || usage.methods.any body.declares := by
  rw [isUsed, isUsedM]
  simp only [anyM_plain]
  change Id.run (match p.interface? leaf with | none => _ | some _ => _) = _
  cases p.interface? leaf with
  | none => rfl
  | some body =>
    change (if usage.interfaces.any (p.implements · leaf) then _ else _) = _
    dsimp only
    cases usage.interfaces.any (p.implements · leaf) <;> rfl

theorem namedParts_def (id : TypeId) :
    p.namedParts id =
      match p.named? id with
      | some decl => (p.explicitComposition decl.package id).filter (· ≠ id)
      | none => [] :=
  rfl

theorem isInlineWithMethods_def (id : TypeId) :
    p.isInlineWithMethods id =
      match p.form id with
      | .interface body => !body.methods.isEmpty
      | _ => false :=
  rfl

theorem isAsserted_def (request : Request) (id : TypeId) :
    p.isAsserted request id = (p.isInterface id && !p.implements request.declared id) := by
  rw [isAsserted, isAssertedM]
  change (if p.isInterface id then _ else _) = _
  cases p.isInterface id <;> rfl

theorem isRequestedWithin_succ (request : Request) (depth : Nat) (id : TypeId) :
    p.isRequestedWithin request (depth + 1) id =
      ((p.isInterface id && !p.implements request.declared id) || p.isInlineWithMethods id ||
        id ∈ request.named ||
        match p.namedParts id with
        | [] => false
        | parts => parts.all (p.isRequestedWithin request depth)) := by
  rw [isRequestedWithin, isRequestedWithinM, ← isAsserted_def]
  simp only [allM_plain]
  change (if p.isAsserted request id then _ else _) = _
  cases p.isAsserted request id with
  | true => rfl
  | false =>
    change (if p.isInlineWithMethods id then _ else _) = _
    cases p.isInlineWithMethods id with
    | true => rfl
    | false =>
      change (if id ∈ request.named then _ else _) = _
      by_cases h : id ∈ request.named
      · simp only [h, ↓reduceIte, decide_true, Bool.or_true, Bool.true_or]
        rfl
      · simp only [h, ↓reduceIte, decide_false, Bool.or_false, Bool.false_or]
        rfl

theorem isRequested_def (request : Request) (id : TypeId) :
    p.isRequested request id = p.isRequestedWithin request (p.types.size + 1) id :=
  rfl

theorem isMethodRequested_def (request : Request) (method : String) :
    p.isMethodRequested request method =
      (p.explicitlyContaining method request.declared).any (p.isRequested request) := by
  rw [isMethodRequested, isMethodRequestedM]
  simp only [anyM_plain]
  rfl

theorem unusedGroups_def (request : Request) (usage : Usage) :
    p.unusedGroups request usage =
      (p.leafGroups request.declared).filter fun leaf => !p.isUsed usage leaf := by
  rw [unusedGroups, unusedGroupsM]
  simp only [keep_plain]
  rfl

theorem unrequestedUses_def (request : Request) (usage : Usage) :
    p.unrequestedUses request usage =
      (usage.interfaces.flatMap fun used =>
        (p.explicitComposition request.home used).filter fun part =>
          !p.isRequested request part) ++
      usage.methods.flatMap fun method =>
        if p.isMethodRequested request method then []
        else p.explicitlyContaining method request.declared := by
  rw [unrequestedUses, unrequestedUsesM]
  simp only [mapM_plain, unrequestedPartsM, keep_plain, List.flatMap_def]
  rfl

theorem problems_def (request : Request) (usage : Usage) :
    p.problems request usage =
      { allUnused := !(p.leafGroups request.declared).isEmpty &&
          (p.unusedGroups request usage).length == (p.leafGroups request.declared).length
        unused := p.unusedGroups request usage
        unrequested := p.unrequestedUses request usage
        cached := usage.cached } :=
  rfl

end Plain

end Program

end LeastContext
