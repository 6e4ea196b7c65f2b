import LeastContext.Draft.Basic

namespace LeastContext

namespace Draft

/-- An identifier that is bound to nothing. -/
def plainIdent (name : String) : Ident :=
  ⟨name, default, none⟩

variable (draft : Draft)

/-- The declaring occurrence of an object. -/
def defIdent (id : ObjectId) : Ident :=
  let object := draft.program.object id
  ⟨object.name, object.pos.getD default, some (.defines id)⟩

/-- A referring occurrence of an object. -/
def useIdent (id : ObjectId) : Ident :=
  ⟨(draft.program.object id).name, default, some (.uses id)⟩

/-- An object used as an expression of its type. -/
def useExpr (id : ObjectId) : Expr :=
  ⟨.ident (draft.useIdent id), (draft.program.object id).type⟩

/-- A signature with its types written out. -/
def writeSignature (write : TypeId → Expr) (sig : TypeId) : FuncType :=
  match draft.program.form sig with
  | .signature sig =>
    ⟨sig.params.map fun param => ⟨[], write param.type⟩,
      sig.results.map fun type => ⟨[], write type⟩⟩
  | _ => ⟨[], []⟩

/-- The expression that writes a type, given how the types below it are written. -/
def writeType (write : TypeId → Expr) (id : TypeId) : Expr :=
  let reference name := ExprForm.ident ⟨name, default, (draft.typeName? id).map .uses⟩
  let form :=
    match draft.program.form id with
    | .named decl => reference decl.name
    | .basic name => reference name
    | .pointer elem => .star (write elem)
    | .slice elem => .arrayType none (write elem)
    | .array _ elem => .arrayType (some ⟨.literal "N", none⟩) (write elem)
    | .map key value => .mapType (write key) (write value)
    | .signature _ => .funcType (draft.writeSignature write id)
    | .struct fields =>
      .structType (fields.map fun field =>
        ⟨if field.embedded then [] else [plainIdent field.name], write field.type⟩)
    | .interface body =>
      .interfaceType (
        body.methods.map (fun method =>
          ⟨[plainIdent method.name],
            ⟨.funcType (draft.writeSignature write method.signature), some method.signature⟩⟩) ++
        body.embeds.map fun embed => ⟨[], write embed⟩)
  ⟨form, some id⟩

def typeExprWithin : Nat → TypeId → Expr
  | 0, id => ⟨.ident (plainIdent ""), some id⟩
  | depth + 1, id => draft.writeType (typeExprWithin depth) id

/-- The expression that writes a type. Named types are written by name, and types refer to older
types, so that it ends. -/
def typeExpr (id : TypeId) : Expr :=
  draft.typeExprWithin (draft.program.types.size + 1) id

/-- A field without a name. -/
def unnamedField (type : TypeId) : Field :=
  ⟨[], draft.typeExpr type⟩

/-- The first result of a callee. -/
def resultType? (callee : Option TypeId) : Option TypeId := do
  match draft.program.form (draft.program.underlying (← callee)) with
  | .signature sig => sig.results.head?
  | _ => none

/-- A call, typed as the first result of the callee; it may spread its last argument. -/
def call (callee : Expr) (args : List Expr) (spread : Bool) : Expr :=
  ⟨.call callee args spread, draft.resultType? callee.type⟩

def selector (operand : Expr) (member : ObjectId) : Expr :=
  ⟨.selector operand (draft.useIdent member), (draft.program.object member).type⟩

/-- The call of a method that has a given signature. -/
def methodCall (receiver : Expr) (name : String) (sig : TypeId) (args : List Expr) : Expr :=
  draft.call ⟨.selector receiver (plainIdent name), some sig⟩ args false

def typeAssert (operand : Expr) (target : TypeId) : Expr :=
  ⟨.typeAssert operand (some (draft.typeExpr target)), some target⟩

def conversion (target : TypeId) (operand : Expr) : Expr :=
  ⟨.conversion (draft.typeExpr target) operand, some target⟩

def compositeLit (type : TypeId) (elements : List Expr) : Expr :=
  ⟨.compositeLit (some (draft.typeExpr type)) elements, some type⟩

/-- A field of a struct literal, keyed by its name. -/
def keyValue (field : String) (type : TypeId) (value : Expr) : Expr :=
  ⟨.keyValue ⟨.ident (plainIdent field), some type⟩ value, none⟩

def literal (value : String) (type : TypeId) : Expr :=
  ⟨.literal value, some type⟩

/-- The declaration of a variable with its value, as a statement. -/
def define (object : ObjectId) (value : Expr) : Stmt :=
  .decl ⟨.variables, [.value [draft.defIdent object] none [value]]⟩

/-- Fields that declare the given variables. -/
def paramFields (params : List ObjectId) : Drafting (List Field) :=
  params.mapM fun object => do
    let name := (← get).defIdent object
    let type ← objectType object
    return ⟨[name], (← get).typeExpr type⟩

def funcLit (params : List ObjectId) (body : List Stmt) : Drafting Expr := do
  let sig ← boundSignature params []
  let fields ← paramFields params
  return ⟨.funcLit ⟨fields, []⟩ ⟨body⟩, some sig⟩

end Draft

end LeastContext
