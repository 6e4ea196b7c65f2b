import LeastContext.Program.Basic

namespace LeastContext

open Evaluation

/-- How names of types are qualified: bare for one package, by path or by package name else. -/
structure Qualification where
  home : Option PackageId
  fullPath : Bool

/-- The results of a signature: nothing, one behind a blank, or several in parentheses. -/
def writtenResults : List String → String
  | [] => ""
  | [result] => " " ++ result
  | results => " (" ++ ", ".intercalate results ++ ")"

section Queries

variable {m : Type → Type} [Evaluation m]

/-- One parameter of a signature. A variadic last parameter is written by its element, which `elem?`
gives for a slice type. -/
def Signature.renderParamM (render : TypeId → m String) (elem? : TypeId → m (Option TypeId))
    (sig : Signature) (param : Param × Nat) : m String := do
  if sig.variadic && param.2 == sig.params.length - 1 then
    match ← elem? param.1.type with
    | some elem => return "..." ++ (← render elem)
    | none => render param.1.type
  else render param.1.type

/-- Parameters and results of a signature, without a keyword. -/
def Signature.renderM (render : TypeId → m String) (elem? : TypeId → m (Option TypeId))
    (sig : Signature) : m String := do
  let params ← sig.params.zipIdx.mapM (sig.renderParamM render elem?)
  let results ← sig.results.mapM render
  return "(" ++ ", ".intercalate params ++ ")" ++ writtenResults results

namespace Program

variable (p : Program)

def sliceElemM (id : TypeId) : m (Option TypeId) := do
  match ← p.formM id with
  | .slice elem => return some elem
  | _ => return none

/-- The signature of a method; one that has no signature type prints as taking nothing. -/
def renderMethodM (render : TypeId → m String) (method : InterfaceMethod) : m String := do
  match ← p.formM method.signature with
  | .signature sig => return method.name ++ (← sig.renderM render p.sliceElemM)
  | _ => return method.name ++ "()"

/-- An interface body: its methods, then its embeds. -/
def renderBodyM (render : TypeId → m String) (body : Interface) : m String := do
  let methods ← body.methods.mapM (p.renderMethodM render)
  let embeds ← body.embeds.mapM render
  return "interface\x7b" ++ "; ".intercalate (methods ++ embeds) ++ "\x7d"

def renderFieldM (render : TypeId → m String) (field : StructField) : m String := do
  let type ← render field.type
  return if field.embedded then type else field.name ++ " " ++ type

def renderNameM (q : Qualification) (decl : NamedType) : m String := do
  match decl.package with
  | none => return decl.name
  | some package =>
    if q.home = some package then return decl.name
    else
      let info ← p.packageOfM package
      return (if q.fullPath then info.path else info.name) ++ "." ++ decl.name

def renderWithinM (q : Qualification) : Nat → TypeId → m String
  | 0, _ => fault .endless ""
  | depth + 1, id => do
    match ← p.formM id with
    | .basic name => return name
    | .named decl => p.renderNameM q decl
    | .pointer elem => return "*" ++ (← renderWithinM q depth elem)
    | .slice elem => return "[]" ++ (← renderWithinM q depth elem)
    | .array length elem =>
      return "[" ++ toString length.toNat ++ "]" ++ (← renderWithinM q depth elem)
    | .map key value =>
      return "map[" ++ (← renderWithinM q depth key) ++ "]" ++ (← renderWithinM q depth value)
    | .signature sig => return "func" ++ (← sig.renderM (renderWithinM q depth) p.sliceElemM)
    | .struct fields =>
      let texts ← fields.mapM (renderFieldM (renderWithinM q depth))
      return "struct\x7b" ++ "; ".intercalate texts ++ "\x7d"
    | .interface body => p.renderBodyM (renderWithinM q depth) body

def renderM (q : Qualification) (id : TypeId) : m String :=
  p.renderWithinM q (p.types.size + 1) id

/-- An interface body with names qualified as seen from a package. -/
def renderInterfaceM (home : Option PackageId) (body : Interface) : m String :=
  p.renderBodyM (p.renderM ⟨home, false⟩) body

/-- The full name of an object: its path and name, for a method its receiver and name; fields and
package names have none. -/
def qualifiedNameM (id : ObjectId) : m (Option String) := do
  let object ← p.objectM id
  match object.kind with
  | .builtin => return some ("builtin." ++ object.name)
  | .func | .typeName | .constant | .variable =>
    match object.package with
    | some package => return some ((← p.packageOfM package).path ++ "." ++ object.name)
    | none => return some object.name
  | .method receiver =>
    return some ("(" ++ (← p.renderM ⟨none, true⟩ receiver) ++ ")." ++ object.name)
  | .field | .packageName => return none

end Program

end Queries

section Plain

def Signature.render (render : TypeId → String) (elem? : TypeId → Option TypeId)
    (sig : Signature) : String :=
  Id.run (sig.renderM render elem?)

theorem Signature.render_def (render : TypeId → String) (elem? : TypeId → Option TypeId)
    (sig : Signature) :
    sig.render render elem? =
      let last := sig.params.length - 1
      let params := sig.params.mapIdx fun i param =>
        match if sig.variadic && i == last then elem? param.type else none with
        | some elem => "..." ++ render elem
        | none => render param.type
      "(" ++ ", ".intercalate params ++ ")" ++ writtenResults (sig.results.map render) := by
  have param : ∀ param : Param × Nat,
      Id.run (sig.renderParamM render elem? param) =
        match if sig.variadic && param.2 == sig.params.length - 1 then elem? param.1.type
          else none with
        | some elem => "..." ++ render elem
        | none => render param.1.type := by
    intro param
    rw [renderParamM]
    split <;> rfl
  rw [Signature.render, renderM]
  simp only [mapM_plain, List.mapIdx_eq_zipIdx_map, param]
  rfl

namespace Program

variable (p : Program)

def sliceElem? (id : TypeId) : Option TypeId :=
  Id.run (p.sliceElemM id)

def renderMethod (render : TypeId → String) (method : InterfaceMethod) : String :=
  Id.run (p.renderMethodM render method)

def renderBody (render : TypeId → String) (body : Interface) : String :=
  Id.run (p.renderBodyM render body)

def renderField (render : TypeId → String) (field : StructField) : String :=
  Id.run (renderFieldM render field)

def renderName (q : Qualification) (decl : NamedType) : String :=
  Id.run (p.renderNameM q decl)

def renderWithin (q : Qualification) (depth : Nat) (id : TypeId) : String :=
  Id.run (p.renderWithinM q depth id)

def render (q : Qualification) (id : TypeId) : String :=
  Id.run (p.renderM q id)

def renderInterface (home : Option PackageId) (body : Interface) : String :=
  Id.run (p.renderInterfaceM home body)

def qualifiedName? (id : ObjectId) : Option String :=
  Id.run (p.qualifiedNameM id)

theorem sliceElem?_def (id : TypeId) :
    p.sliceElem? id =
      match p.form id with
      | .slice elem => some elem
      | _ => none :=
  rfl

theorem renderMethod_def (render : TypeId → String) (method : InterfaceMethod) :
    p.renderMethod render method =
      match p.form method.signature with
      | .signature sig => method.name ++ sig.render render p.sliceElem?
      | _ => method.name ++ "()" :=
  rfl

theorem renderBody_def (render : TypeId → String) (body : Interface) :
    p.renderBody render body =
      "interface\x7b" ++
        "; ".intercalate (body.methods.map (p.renderMethod render) ++ body.embeds.map render) ++
          "\x7d" := by
  rw [renderBody, renderBodyM]
  simp only [mapM_plain]
  rfl

theorem renderField_def (render : TypeId → String) (field : StructField) :
    renderField render field =
      if field.embedded then render field.type else field.name ++ " " ++ render field.type :=
  rfl

theorem renderName_def (q : Qualification) (decl : NamedType) :
    p.renderName q decl =
      match decl.package with
      | none => decl.name
      | some package =>
        if q.home = some package then decl.name
        else
          let info := p.packageOf package
          (if q.fullPath then info.path else info.name) ++ "." ++ decl.name :=
  rfl

theorem renderWithin_succ (q : Qualification) (depth : Nat) (id : TypeId) :
    p.renderWithin q (depth + 1) id =
      match p.form id with
      | .basic name => name
      | .named decl => p.renderName q decl
      | .pointer elem => "*" ++ p.renderWithin q depth elem
      | .slice elem => "[]" ++ p.renderWithin q depth elem
      | .array length elem => "[" ++ toString length.toNat ++ "]" ++ p.renderWithin q depth elem
      | .map key value =>
        "map[" ++ p.renderWithin q depth key ++ "]" ++ p.renderWithin q depth value
      | .signature sig => "func" ++ sig.render (p.renderWithin q depth) p.sliceElem?
      | .struct fields =>
        "struct\x7b" ++
          "; ".intercalate (fields.map (renderField (p.renderWithin q depth))) ++ "\x7d"
      | .interface body => p.renderBody (p.renderWithin q depth) body := by
  rw [renderWithin, renderWithinM]
  simp only [mapM_plain]
  rfl

theorem render_def (q : Qualification) (id : TypeId) :
    p.render q id = p.renderWithin q (p.types.size + 1) id :=
  rfl

theorem qualifiedName?_def (id : ObjectId) :
    p.qualifiedName? id =
      let object := p.object id
      match object.kind with
      | .builtin => some ("builtin." ++ object.name)
      | .func | .typeName | .constant | .variable =>
        match object.package with
        | some package => some ((p.packageOf package).path ++ "." ++ object.name)
        | none => some object.name
      | .method receiver => some ("(" ++ p.render ⟨none, true⟩ receiver ++ ")." ++ object.name)
      | .field | .packageName => none :=
  rfl

end Program

end Plain

end LeastContext
