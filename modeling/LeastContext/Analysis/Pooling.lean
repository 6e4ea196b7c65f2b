import LeastContext.Ledger
import LeastContext.Type.Satisfaction

namespace LeastContext

/-- Adds a value to the group of a key, at the end if the key is new. -/
def addToGroup [DecidableEq κ] (key : κ) (value : α) :
    List (κ × List α) → List (κ × List α)
  | [] => [(key, [value])]
  | (k, values) :: groups =>
    if k = key then (k, values ++ [value]) :: groups else (k, values) :: addToGroup key value groups

/-- The variable that the first parameter of a function declares. -/
def FuncDecl.firstParam? (decl : FuncDecl) : Option ObjectId := do
  let field ← decl.signature.params.head?
  let name ← field.names.head?
  name.defined?

/-- The state of pooling: the ledger, the first parameter met for each method of the interface at
hand, and how many parameters joined another one. -/
structure Pool where
  ledger : Ledger
  firsts : List (MethodKey × VarId)
  joined : Nat

def Pool.add (pool : Pool) : MethodKey × VarId → Pool
  | (key, v) =>
    match pool.firsts.lookup key with
    | none => { pool with firsts := pool.firsts ++ [(key, v)] }
    | some first => { pool with ledger := pool.ledger.share first v, joined := pool.joined + 1 }

open Evaluation

namespace Program

/-- All declarations at top level. -/
def decls (p : Program) : List Decl :=
  p.files.flatMap (·.decls)

section Queries

variable {m : Type → Type} [Evaluation m] (p : Program)

def receiverBaseM (decl : FuncDecl) : m (Option TypeId) := do
  match (decl.receiver.bind (·.head?)).bind (·.type.type) with
  | some type => return some (← p.unwrapPointersM type)
  | none => return none

def methodDeclM : Decl → m (Option (TypeId × FuncDecl))
  | .func decl => return (← p.receiverBaseM decl).map (·, decl)
  | .gen _ => return none

/-- The methods declared at top level, grouped by the base type of the receiver. -/
def receiversM : m (List (TypeId × List FuncDecl)) := do
  let methods := (← p.decls.mapM p.methodDeclM).filterMap (·)
  return methods.foldl (fun groups method => addToGroup method.1 method.2 groups) []

/-- The interface that an object stands for, if it is a type name of the analyzed package. -/
def namedInterfaceM (object : Object) : m (Option TypeId) := do
  if object.kind = .typeName ∧ object.package = some p.package then
    match object.type with
    | some type => return if ← p.isInterfaceM type then some type else none
    | none => return none
  else return none

/-- The interfaces that type names of the analyzed package stand for. -/
def packageInterfacesM : m (List TypeId) := do
  return (← p.objects.toList.mapM p.namedInterfaceM).filterMap (·)

/-- The key of a declared method and the tracked first parameter it has. -/
def pooledParamM (ledger : Ledger) (keys : List MethodKey) (decl : FuncDecl) :
    m (Option (MethodKey × VarId)) := do
  match decl.name.defined? with
  | some method =>
    let key := (← p.objectM method).methodKey
    return if key ∈ keys then (decl.firstParam?.bind ledger.lookup).map (key, ·) else none
  | none => return none

/-- The tracked first parameters of the implementations of an interface. -/
def siblingsM (ledger : Ledger) (interface : TypeId) : m (List (MethodKey × VarId)) := do
  let keys := (← p.interfaceMethodsM interface).map (·.key)
  let implementing ← keep (fun group => p.pointerImplementsM group.1 interface) (← p.receiversM)
  return (← (implementing.flatMap (·.2)).mapM (p.pooledParamM ledger keys)).filterMap (·)

/-- Pools the implementations of one interface. -/
def poolInterfaceM (pool : Pool) (interface : TypeId) : m Pool := do
  return (← p.siblingsM pool.ledger interface).foldl Pool.add { pool with firsts := [] }

/-- Pools the implementations of all interfaces of the package. To implement an interface a method
has to match its signature, so it may have to accept a context with more than it uses itself; the
first parameters of all implementations of one interface method therefore share one record. The
count is that of parameters that joined a group. -/
def poolM (ledger : Ledger) : m (Ledger × Nat) := do
  let result ← (← p.packageInterfacesM).foldlM p.poolInterfaceM ⟨ledger, [], 0⟩
  return (result.ledger, result.joined)

end Queries

section Plain

variable (p : Program)

def receiverBase? (decl : FuncDecl) : Option TypeId :=
  Id.run (p.receiverBaseM decl)

def methodDecl? (decl : Decl) : Option (TypeId × FuncDecl) :=
  Id.run (p.methodDeclM decl)

/-- The methods declared at top level with the base types of their receivers. -/
def methodDecls : List (TypeId × FuncDecl) :=
  p.decls.filterMap p.methodDecl?

def receivers : List (TypeId × List FuncDecl) :=
  Id.run p.receiversM

def packageInterfaces : List TypeId :=
  Id.run p.packageInterfacesM

def pooledParam? (ledger : Ledger) (keys : List MethodKey) (decl : FuncDecl) :
    Option (MethodKey × VarId) :=
  Id.run (p.pooledParamM ledger keys decl)

def siblings (ledger : Ledger) (interface : TypeId) : List (MethodKey × VarId) :=
  Id.run (p.siblingsM ledger interface)

def poolInterface (pool : Pool) (interface : TypeId) : Pool :=
  Id.run (p.poolInterfaceM pool interface)

def pool (ledger : Ledger) : Ledger × Nat :=
  Id.run (p.poolM ledger)

theorem receiverBase?_def (decl : FuncDecl) :
    p.receiverBase? decl =
      ((decl.receiver.bind (·.head?)).bind (·.type.type)).map p.unwrapPointers := by
  rw [receiverBase?, receiverBaseM]
  cases (decl.receiver.bind (·.head?)).bind (·.type.type) <;> rfl

theorem methodDecl?_func (decl : FuncDecl) :
    p.methodDecl? (.func decl) = (p.receiverBase? decl).map (·, decl) :=
  rfl

theorem methodDecl?_gen (decl : GenDecl) : p.methodDecl? (.gen decl) = none :=
  rfl

theorem receivers_def :
    p.receivers =
      p.methodDecls.foldl (fun groups method => addToGroup method.1 method.2 groups) [] := by
  rw [receivers, receiversM]
  simp only [mapM_plain, pure_bind, List.filterMap_map]
  rfl

theorem packageInterfaces_def :
    p.packageInterfaces =
      p.objects.toList.filterMap fun object =>
        if object.kind = .typeName ∧ object.package = some p.package then
          object.type.filter p.isInterface
        else none := by
  have named : ∀ object, Id.run (p.namedInterfaceM object) =
      if object.kind = .typeName ∧ object.package = some p.package then
        object.type.filter p.isInterface
      else none := by
    intro object
    rw [namedInterfaceM]
    split
    · cases object.type <;> rfl
    · rfl
  rw [packageInterfaces, packageInterfacesM]
  simp only [mapM_plain, pure_bind, List.filterMap_map, named]
  rfl

theorem pooledParam?_def (ledger : Ledger) (keys : List MethodKey) (decl : FuncDecl) :
    p.pooledParam? ledger keys decl =
      decl.name.defined?.bind fun method =>
        if (p.object method).methodKey ∈ keys then
          (decl.firstParam?.bind ledger.lookup).map ((p.object method).methodKey, ·)
        else none := by
  rw [pooledParam?, pooledParamM]
  cases decl.name.defined? <;> rfl

theorem siblings_def (ledger : Ledger) (interface : TypeId) :
    p.siblings ledger interface =
      (p.receivers.filter fun group => p.pointerImplements group.1 interface).flatMap fun group =>
        group.2.filterMap
          (p.pooledParam? ledger ((p.interfaceMethods interface).map (·.key))) := by
  rw [siblings, siblingsM]
  simp only [mapM_plain, keep_plain, pure_bind, List.filterMap_map]
  exact List.filterMap_flatMap

theorem poolInterface_def (pool : Pool) (interface : TypeId) :
    p.poolInterface pool interface =
      (p.siblings pool.ledger interface).foldl Pool.add { pool with firsts := [] } :=
  rfl

theorem pool_def (ledger : Ledger) :
    p.pool ledger =
      let result := p.packageInterfaces.foldl p.poolInterface ⟨ledger, [], 0⟩
      (result.ledger, result.joined) := by
  rw [pool, poolM]
  simp only [foldlM_plain]
  rfl

end Plain

end Program

end LeastContext
