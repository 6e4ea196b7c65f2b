import LeastContext.Evaluation
import LeastContext.Text.Uppercase
import LeastContext.Type.Basic
import LeastContext.Syntax.Basic

namespace LeastContext

structure Package where
  path : String
  name : String
  deriving DecidableEq, Inhabited, Repr

inductive ObjectKind where
  /-- A local variable, parameter, result or package-level variable. -/
  | variable
  | field
  | typeName
  | func
  | method (receiver : TypeId)
  | constant
  | packageName
  | builtin
  deriving DecidableEq, Inhabited, Repr

structure Object where
  name : String
  kind : ObjectKind
  package : Option PackageId
  type : Option TypeId
  pos : Option Position
  deriving DecidableEq, Inhabited, Repr

def Object.isVariable (object : Object) : Bool :=
  match object.kind with
  | .variable | .field => true
  | _ => false

/-- One type-checked package with the packages it depends on. -/
structure Program where
  /-- The package under analysis. -/
  package : PackageId
  packages : Array Package
  types : Array TypeForm
  objects : Array Object
  files : List SourceFile
  deriving Inhabited

open Evaluation

namespace Program

/-- The handles of all types, in arena order. -/
def typeIds (p : Program) : List TypeId :=
  (List.range p.types.size).map TypeId.mk

/-- The name of the file of a position, empty for a file the program does not have. -/
def fileName (p : Program) (pos : Position) : String :=
  match p.files.find? (·.id = pos.file) with
  | some file => file.name
  | none => ""

section Queries

variable {m : Type → Type} [Evaluation m] (p : Program)

def formM (id : TypeId) : m TypeForm :=
  entry p.types id.index (.type id) (.basic "")

def objectM (id : ObjectId) : m Object :=
  entry p.objects id.index (.object id) ⟨"", .builtin, none, none, none⟩

def packageOfM (id : PackageId) : m Package :=
  entry p.packages id.index (.package id) ⟨"", ""⟩

/-- Follows at most `steps` links from a named type to its definition. -/
def underlyingWithinM : Nat → TypeId → m TypeId
  | 0, id => fault .endless id
  | steps + 1, id => do
    match ← p.formM id with
    | .named decl =>
      if decl.underlying = id then return id else underlyingWithinM steps decl.underlying
    | _ => return id

/-- The type that defines a type: the first unnamed one on the chain of definitions. -/
def underlyingM (id : TypeId) : m TypeId :=
  p.underlyingWithinM (p.types.size + 1) id

def interfaceM (id : TypeId) : m (Option Interface) := do
  match ← p.formM (← p.underlyingM id) with
  | .interface body => return some body
  | _ => return none

def isInterfaceM (id : TypeId) : m Bool := do
  return (← p.interfaceM id).isSome

/-- The types an interface embeds; none for any other type. -/
def embedsM (id : TypeId) : m (List TypeId) := do
  match ← p.interfaceM id with
  | some body => return body.embeds
  | none => return []

def namedM (id : TypeId) : m (Option NamedType) := do
  match ← p.formM id with
  | .named decl => return some decl
  | _ => return none

def unwrapPointersWithinM : Nat → TypeId → m TypeId
  | 0, id => fault .endless id
  | steps + 1, id => do
    match ← p.formM id with
    | .pointer elem => unwrapPointersWithinM steps elem
    | _ => return id

/-- The type at the end of a chain of pointers. -/
def unwrapPointersM (id : TypeId) : m TypeId :=
  p.unwrapPointersWithinM (p.types.size + 1) id

/-- Whether a type is the named type `name` of the package with path `path`. -/
def isTypeM (id : TypeId) (path name : String) : m Bool := do
  match ← p.namedM id with
  | some decl =>
    if decl.name == name then
      match decl.package with
      | some package => return (← p.packageOfM package).path == path
      | none => return path.isEmpty
    else return false
  | none => return false

end Queries

section Plain

variable (p : Program)

def form (id : TypeId) : TypeForm :=
  Id.run (p.formM id)

def object (id : ObjectId) : Object :=
  Id.run (p.objectM id)

def packageOf (id : PackageId) : Package :=
  Id.run (p.packageOfM id)

def underlyingWithin (steps : Nat) (id : TypeId) : TypeId :=
  Id.run (p.underlyingWithinM steps id)

def underlying (id : TypeId) : TypeId :=
  Id.run (p.underlyingM id)

def interface? (id : TypeId) : Option Interface :=
  Id.run (p.interfaceM id)

def isInterface (id : TypeId) : Bool :=
  Id.run (p.isInterfaceM id)

def embeds (id : TypeId) : List TypeId :=
  Id.run (p.embedsM id)

def named? (id : TypeId) : Option NamedType :=
  Id.run (p.namedM id)

def unwrapPointersWithin (steps : Nat) (id : TypeId) : TypeId :=
  Id.run (p.unwrapPointersWithinM steps id)

def unwrapPointers (id : TypeId) : TypeId :=
  Id.run (p.unwrapPointersM id)

def isType (id : TypeId) (path name : String) : Bool :=
  Id.run (p.isTypeM id path name)

theorem form_def (id : TypeId) : p.form id = p.types.getD id.index (.basic "") :=
  entry_plain ..

theorem object_def (id : ObjectId) :
    p.object id = p.objects.getD id.index ⟨"", .builtin, none, none, none⟩ :=
  entry_plain ..

theorem packageOf_def (id : PackageId) : p.packageOf id = p.packages.getD id.index ⟨"", ""⟩ :=
  entry_plain ..

theorem underlyingWithin_succ (steps : Nat) (id : TypeId) :
    p.underlyingWithin (steps + 1) id =
      match p.form id with
      | .named decl =>
        if decl.underlying = id then id else p.underlyingWithin steps decl.underlying
      | _ => id :=
  rfl

theorem underlying_def (id : TypeId) :
    p.underlying id = p.underlyingWithin (p.types.size + 1) id :=
  rfl

theorem interface?_def (id : TypeId) :
    p.interface? id =
      match p.form (p.underlying id) with
      | .interface body => some body
      | _ => none :=
  rfl

theorem isInterface_def (id : TypeId) : p.isInterface id = (p.interface? id).isSome :=
  rfl

theorem embeds_def (id : TypeId) :
    p.embeds id =
      match p.interface? id with
      | some body => body.embeds
      | none => [] :=
  rfl

theorem named?_def (id : TypeId) :
    p.named? id =
      match p.form id with
      | .named decl => some decl
      | _ => none :=
  rfl

theorem unwrapPointersWithin_succ (steps : Nat) (id : TypeId) :
    p.unwrapPointersWithin (steps + 1) id =
      match p.form id with
      | .pointer elem => p.unwrapPointersWithin steps elem
      | _ => id :=
  rfl

theorem unwrapPointers_def (id : TypeId) :
    p.unwrapPointers id = p.unwrapPointersWithin (p.types.size + 1) id :=
  rfl

theorem isType_def (id : TypeId) (path name : String) :
    p.isType id path name =
      match p.named? id with
      | some decl =>
        if decl.name == name then
          match decl.package with
          | some package => (p.packageOf package).path == path
          | none => path.isEmpty
        else false
      | none => false :=
  rfl

end Plain

end Program

def NamedType.isExported (decl : NamedType) : Bool :=
  Text.isExported decl.name

end LeastContext
