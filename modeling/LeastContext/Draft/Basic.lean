import LeastContext.Program.Basic

namespace LeastContext

/-- A program written by hand. What is declared gets one line each of the file being written. -/
structure Draft where
  program : Program
  /-- The file being written, once there is one. -/
  file : Option FileId
  /-- The line that the next declaration gets. -/
  line : UInt32
  /-- The objects that name the named types. -/
  typeNames : List (TypeId × ObjectId)

/-- A step of writing a draft. -/
abbrev Drafting := StateM Draft

namespace Draft

/-- A draft of the package with a given path and name. -/
def start (path name : String) : Draft :=
  { program := {
      package := ⟨0⟩
      packages := #[⟨path, name⟩]
      types := #[]
      objects := #[]
      files := [] }
    file := none
    line := 1
    typeNames := [] }

def typeName? (draft : Draft) (id : TypeId) : Option ObjectId :=
  draft.typeNames.lookup id

/-- The package being written. -/
def home : Drafting PackageId := do
  return (← get).program.package

/-- The package with a path, added if there is none yet. -/
def package (path name : String) : Drafting PackageId := do
  let draft ← get
  match draft.program.packages.findIdx? (·.path = path) with
  | some i => return ⟨i⟩
  | none =>
    let packages := draft.program.packages
    set { draft with program := { draft.program with packages := packages.push ⟨path, name⟩ } }
    return ⟨packages.size⟩

/-- Starts a file; what follows is written there. -/
def beginFile (name : String) : Drafting FileId := do
  let draft ← get
  let id : FileId := ⟨UInt32.ofNat draft.program.files.length⟩
  let file : SourceFile := { id, name, decls := [] }
  set { draft with
    program := { draft.program with files := draft.program.files ++ [file] }
    file := some id
    line := 1 }
  return id

/-- The file being written; the first one starts by itself. -/
def currentFile : Drafting FileId := do
  match (← get).file with
  | some id => return id
  | none => beginFile "main.go"

/-- The start of the next line of the file being written. -/
def nextPosition : Drafting Position := do
  let file ← currentFile
  let draft ← get
  set { draft with line := draft.line + 1 }
  return { file, line := draft.line, column := 1 }

def addType (form : TypeForm) : Drafting TypeId := do
  let draft ← get
  let types := draft.program.types
  set { draft with program := { draft.program with types := types.push form } }
  return ⟨types.size⟩

def addObject (object : Object) : Drafting ObjectId := do
  let draft ← get
  let objects := draft.program.objects
  set { draft with program := { draft.program with objects := objects.push object } }
  return ⟨objects.size⟩

/-- A predeclared type, added if there is none of the name yet. -/
def basic (name : String) : Drafting TypeId := do
  match (← get).program.types.findIdx? (· = .basic name) with
  | some i => return ⟨i⟩
  | none => addType (.basic name)

def pointer (elem : TypeId) : Drafting TypeId :=
  addType (.pointer elem)

def slice (elem : TypeId) : Drafting TypeId :=
  addType (.slice elem)

/-- A signature that binds no variables. -/
def signature (params results : List TypeId) (variadic : Bool) : Drafting TypeId :=
  addType (.signature { params := params.map (⟨·, none⟩), results, variadic })

def interfaceOf (package : PackageId) (methods : List (String × TypeId)) (embeds : List TypeId) :
    Drafting TypeId :=
  addType (.interface
    { methods := methods.map fun (name, sig) => ⟨name, some package, sig⟩, embeds })

/-- An interface literal of the package being written. -/
def interface (methods : List (String × TypeId)) (embeds : List TypeId) : Drafting TypeId := do
  interfaceOf (← home) methods embeds

/-- The name of the field that embeds a type: that of the type, or none if it has no name. -/
def embeddedName (p : Program) (id : TypeId) : String :=
  match p.form (p.unwrapPointers id) with
  | .named decl => decl.name
  | .basic name => name
  | _ => ""

/-- A struct with named fields followed by embedded ones. -/
def structOf (fields : List (String × TypeId)) (embeds : List TypeId) : Drafting TypeId := do
  let p := (← get).program
  addType (.struct (fields.map (fun (name, type) => ⟨name, type, false⟩) ++
    embeds.map fun type => ⟨embeddedName p type, type, true⟩))

/-- A named type with the object that names it, which has a line if it is of the package being
written. -/
def named (package : PackageId) (name : String) (underlying : TypeId) : Drafting TypeId := do
  let id ← addType (.named { name, package := some package, underlying, methods := [] })
  let pos ← if package = (← home) then some <$> nextPosition else pure none
  let object ← addObject
    { name, kind := .typeName, package := some package, type := some id, pos }
  modify fun draft => { draft with typeNames := draft.typeNames ++ [(id, object)] }
  return id

def namedInterface (package : PackageId) (name : String) (methods : List (String × TypeId))
    (embeds : List TypeId) : Drafting TypeId := do
  named package name (← interfaceOf package methods embeds)

/-- Adds a method to a form, if it is that of a named type. -/
def withMethod (method : DeclaredMethod) : TypeForm → TypeForm
  | .named decl => .named { decl with methods := decl.methods ++ [method] }
  | form => form

/-- Attaches a method without a body to a named type. -/
def addMethod (type : TypeId) (name : String) (sig : TypeId) (pointerReceiver : Bool) :
    Drafting ObjectId := do
  let package :=
    match (← get).program.form type with
    | .named decl => decl.package
    | _ => none
  let func ← addObject { name, kind := .method type, package, type := some sig, pos := none }
  modify fun draft =>
    let types := draft.program.types.modify type.index (withMethod ⟨func, pointerReceiver⟩)
    { draft with program := { draft.program with types } }
  return func

/-- A variable on a line of its own. -/
def var (name : String) (type : TypeId) : Drafting ObjectId := do
  let pos ← nextPosition
  addObject
    { name, kind := .variable, package := some (← home), type := some type, pos := some pos }

/-- A function of some package, without a body. -/
def func (package : PackageId) (name : String) (sig : TypeId) : Drafting ObjectId :=
  addObject { name, kind := .func, package := some package, type := some sig, pos := none }

def builtin (name : String) : Drafting ObjectId :=
  addObject { name, kind := .builtin, package := none, type := none, pos := none }

/-- The type of an object; one without a type counts as of the predeclared type `invalid`. -/
def objectType (id : ObjectId) : Drafting TypeId := do
  match ((← get).program.object id).type with
  | some type => return type
  | none => basic "invalid"

/-- The signature of a function whose parameters are the given variables. -/
def boundSignature (params : List ObjectId) (results : List TypeId) : Drafting TypeId := do
  let params ← params.mapM fun object =>
    return { type := ← objectType object, object := some object }
  addType (.signature { params, results, variadic := false })

end Draft

end LeastContext
