import LeastContext.Draft.Expr

namespace LeastContext

namespace Draft

/-- Adds a declaration to the file being written. -/
def pushDecl (decl : Decl) : Drafting Unit := do
  let id ← currentFile
  modify fun draft =>
    let files := draft.program.files.map fun file =>
      if file.id = id then { file with decls := file.decls ++ [decl] } else file
    { draft with program := { draft.program with files } }

/-- Adds the declaration of a function or method whose object there is already. -/
def pushFunc (receiver : Option (List Field)) (func : ObjectId) (params : List ObjectId)
    (results : List TypeId) (body : List Stmt) : Drafting Unit := do
  let name := (← get).defIdent func
  let params ← paramFields params
  let results := results.map (← get).unnamedField
  pushDecl (.func ⟨receiver, name, ⟨params, results⟩, some ⟨body⟩⟩)

/-- Declares a function. -/
def funcDecl (name : String) (params : List ObjectId) (results : List TypeId) (body : List Stmt) :
    Drafting ObjectId := do
  let sig ← boundSignature params results
  let pos ← nextPosition
  let func ← addObject
    { name, kind := .func, package := some (← home), type := some sig, pos := some pos }
  pushFunc none func params results body
  return func

/-- Declares a method and attaches it to the type of its receiver. -/
def methodDecl (type : TypeId) (pointerReceiver : Bool) (name : String) (params : List ObjectId)
    (results : List TypeId) (body : List Stmt) : Drafting ObjectId := do
  let sig ← boundSignature params results
  let func ← addMethod type name sig pointerReceiver
  let pos ← nextPosition
  modify fun draft =>
    let objects := draft.program.objects.modify func.index fun object =>
      { object with pos := some pos }
    { draft with program := { draft.program with objects } }
  let receiver ← if pointerReceiver then pointer type else pure type
  pushFunc (some [(← get).unnamedField receiver]) func params results body
  return func

/-- Declares a named type by what it stands for; nothing happens for types that no object names. -/
def typeDecl (type : TypeId) : Drafting Unit := do
  let draft ← get
  match draft.typeName? type with
  | none => return
  | some object =>
    let definition := draft.typeExpr (draft.program.underlying type)
    pushDecl (.gen ⟨.types, [.type (draft.defIdent object) definition]⟩)

end Draft

end LeastContext
