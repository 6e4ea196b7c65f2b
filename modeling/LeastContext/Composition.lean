import LeastContext.Program.Basic

namespace LeastContext

open Evaluation

/-- A type to be named in a message, or the methods of an interface that cannot be named. -/
inductive Nameable where
  | type (id : TypeId)
  | methods (id : TypeId)
  deriving DecidableEq, Inhabited, Repr

namespace Program

section Queries

variable {m : Type → Type} [Evaluation m] (p : Program)

def embedWalkWithinM (stop : TypeId → m Bool) : Nat → TypeId → m (List TypeId)
  | 0, _ => fault .endless []
  | depth + 1, id => do
    if ← stop id then return [id]
    else return id :: (← (← p.embedsM id).mapM (embedWalkWithinM stop depth)).flatten

/-- The types met from a type on through embeds, each before its own embeds. A type that the walk
stops at is listed but not entered. -/
def embedWalkM (stop : TypeId → m Bool) (id : TypeId) : m (List TypeId) :=
  p.embedWalkWithinM stop (p.types.size + 1) id

/-- What a walk meets and a test lets pass, each type once. -/
def chooseM (stop test : TypeId → m Bool) (id : TypeId) : m (List TypeId) := do
  return (← keep test (← p.embedWalkM stop id)).eraseDups

def isContextWithinM (path name : String) : Nat → TypeId → m Bool
  | 0, _ => fault .endless false
  | depth + 1, id => do
    if ← p.isTypeM id path name then return true
    else (← p.embedsM id).anyM (isContextWithinM path name depth)

/-- Whether a type is the named base type or embeds it, directly or further down. -/
def isContextM (path name : String) (id : TypeId) : m Bool :=
  p.isContextWithinM path name (p.types.size + 1) id

/-- A named interface of another package is opaque. -/
def isForeignM (home : Option PackageId) (id : TypeId) : m Bool := do
  match ← p.namedM id with
  | some decl => return decl.package ≠ home
  | none => return false

/-- A named interface can be asked for if it is foreign or exported. -/
def isRequestableM (home : Option PackageId) (id : TypeId) : m Bool := do
  if ← p.isInterfaceM id then
    match ← p.namedM id with
    | some decl => return decl.package ≠ home || decl.isExported
    | none => return false
  else return false

/-- The interfaces that a variable of a type, declared in the package `home`, asks for by name. -/
def explicitCompositionM (home : Option PackageId) (id : TypeId) : m (List TypeId) :=
  p.chooseM (p.isForeignM home) (p.isRequestableM home) id

def declaresMethodsM (id : TypeId) : m Bool := do
  match ← p.interfaceM id with
  | some body => return !body.methods.isEmpty
  | none => return false

/-- The capability groups of a type: the first interfaces with methods of their own. -/
def leafGroupsM (id : TypeId) : m (List TypeId) :=
  p.chooseM p.declaresMethodsM p.declaresMethodsM id

def declaresM (method : String) (id : TypeId) : m Bool := do
  match ← p.interfaceM id with
  | some body => return body.declares method
  | none => return false

/-- The interfaces reachable from a type that declare a method of a name themselves. -/
def explicitlyContainingM (method : String) (id : TypeId) : m (List TypeId) :=
  p.chooseM (fun _ => return false) (p.declaresM method) id

/-- Whether a package can name an interface. -/
def isNameableM (home : Option PackageId) (id : TypeId) : m Bool := do
  match ← p.namedM id with
  | some decl => return decl.isExported || decl.package = home
  | none => return false

def expandWithinM (home : Option PackageId) : Nat → TypeId → m (List Nameable)
  | 0, _ => fault .endless []
  | depth + 1, id => do
    match ← p.interfaceM id with
    | none => return [.type id]
    | some body =>
      if ← p.isNameableM home id then return [.type id]
      else
        let below ← body.embeds.mapM (expandWithinM home depth)
        return below.flatten ++ if body.methods.isEmpty then [] else [.methods id]

/-- What to write for an interface in messages about a package: itself if the package can name it,
else its embeds and its own methods. -/
def expandM (home : Option PackageId) (id : TypeId) : m (List Nameable) :=
  p.expandWithinM home (p.types.size + 1) id

end Queries

section Plain

variable (p : Program)

def embedWalkWithin (stop : TypeId → Bool) (depth : Nat) (id : TypeId) : List TypeId :=
  Id.run (p.embedWalkWithinM stop depth id)

def embedWalk (stop : TypeId → Bool) (id : TypeId) : List TypeId :=
  Id.run (p.embedWalkM stop id)

def isContextWithin (path name : String) (depth : Nat) (id : TypeId) : Bool :=
  Id.run (p.isContextWithinM path name depth id)

def isContext (path name : String) (id : TypeId) : Bool :=
  Id.run (p.isContextM path name id)

def isForeign (home : Option PackageId) (id : TypeId) : Bool :=
  Id.run (p.isForeignM home id)

def isRequestable (home : Option PackageId) (id : TypeId) : Bool :=
  Id.run (p.isRequestableM home id)

def explicitComposition (home : Option PackageId) (id : TypeId) : List TypeId :=
  Id.run (p.explicitCompositionM home id)

def declaresMethods (id : TypeId) : Bool :=
  Id.run (p.declaresMethodsM id)

def leafGroups (id : TypeId) : List TypeId :=
  Id.run (p.leafGroupsM id)

def declares (method : String) (id : TypeId) : Bool :=
  Id.run (p.declaresM method id)

def explicitlyContaining (method : String) (id : TypeId) : List TypeId :=
  Id.run (p.explicitlyContainingM method id)

def isNameable (home : Option PackageId) (id : TypeId) : Bool :=
  Id.run (p.isNameableM home id)

def expandWithin (home : Option PackageId) (depth : Nat) (id : TypeId) : List Nameable :=
  Id.run (p.expandWithinM home depth id)

def expand (home : Option PackageId) (id : TypeId) : List Nameable :=
  Id.run (p.expandM home id)

theorem embedWalkWithin_succ (stop : TypeId → Bool) (depth : Nat) (id : TypeId) :
    p.embedWalkWithin stop (depth + 1) id =
      id :: if stop id then [] else (p.embeds id).flatMap (p.embedWalkWithin stop depth) := by
  rw [embedWalkWithin, embedWalkWithinM]
  simp only [mapM_plain, List.flatMap_def]
  change (if stop id then _ else _) = _
  cases stop id <;> rfl

theorem embedWalk_def (stop : TypeId → Bool) (id : TypeId) :
    p.embedWalk stop id = p.embedWalkWithin stop (p.types.size + 1) id :=
  rfl

theorem choose_plain (stop test : TypeId → Bool) (id : TypeId) :
    Id.run (p.chooseM stop test id) = ((p.embedWalk stop id).filter test).eraseDups := by
  rw [chooseM]
  simp only [keep_plain]
  rfl

theorem isContextWithin_succ (path name : String) (depth : Nat) (id : TypeId) :
    p.isContextWithin path name (depth + 1) id =
      (p.isType id path name || (p.embeds id).any (p.isContextWithin path name depth)) := by
  rw [isContextWithin, isContextWithinM]
  simp only [anyM_plain]
  change (if p.isType id path name then _ else _) = _
  cases p.isType id path name <;> rfl

theorem isContext_def (path name : String) (id : TypeId) :
    p.isContext path name id = p.isContextWithin path name (p.types.size + 1) id :=
  rfl

theorem isForeign_def (home : Option PackageId) (id : TypeId) :
    p.isForeign home id =
      match p.named? id with
      | some decl => decide (decl.package ≠ home)
      | none => false :=
  rfl

theorem isRequestable_def (home : Option PackageId) (id : TypeId) :
    p.isRequestable home id =
      (p.isInterface id &&
        match p.named? id with
        | some decl => decl.package ≠ home || decl.isExported
        | none => false) := by
  rw [isRequestable, isRequestableM]
  change (if p.isInterface id then _ else _) = _
  cases p.isInterface id <;> rfl

theorem explicitComposition_def (home : Option PackageId) (id : TypeId) :
    p.explicitComposition home id =
      ((p.embedWalk (p.isForeign home) id).filter (p.isRequestable home)).eraseDups :=
  p.choose_plain ..

theorem declaresMethods_def (id : TypeId) :
    p.declaresMethods id =
      match p.interface? id with
      | some body => !body.methods.isEmpty
      | none => false :=
  rfl

theorem leafGroups_def (id : TypeId) :
    p.leafGroups id =
      ((p.embedWalk p.declaresMethods id).filter p.declaresMethods).eraseDups :=
  p.choose_plain ..

theorem declares_def (method : String) (id : TypeId) :
    p.declares method id =
      match p.interface? id with
      | some body => body.declares method
      | none => false :=
  rfl

theorem explicitlyContaining_def (method : String) (id : TypeId) :
    p.explicitlyContaining method id =
      ((p.embedWalk (fun _ => false) id).filter (p.declares method)).eraseDups :=
  p.choose_plain ..

theorem isNameable_def (home : Option PackageId) (id : TypeId) :
    p.isNameable home id =
      match p.named? id with
      | some decl => decl.isExported || decl.package = home
      | none => false :=
  rfl

theorem expandWithin_succ (home : Option PackageId) (depth : Nat) (id : TypeId) :
    p.expandWithin home (depth + 1) id =
      match p.interface? id with
      | none => [.type id]
      | some body =>
        if p.isNameable home id then [.type id]
        else
          body.embeds.flatMap (p.expandWithin home depth) ++
            if body.methods.isEmpty then [] else [.methods id] := by
  rw [expandWithin, expandWithinM]
  simp only [mapM_plain, List.flatMap_def]
  rfl

theorem expand_def (home : Option PackageId) (id : TypeId) :
    p.expand home id = p.expandWithin home (p.types.size + 1) id :=
  rfl

end Plain

end Program

end LeastContext
