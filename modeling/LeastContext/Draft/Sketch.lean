import LeastContext.Draft.Decl

namespace LeastContext

mutual
inductive ExprSketch where
  | use (object : ObjectId)
  | type (type : TypeId)
  | call (callee : ExprSketch) (args : List ExprSketch) (spread : Bool)
  | selector (operand : ExprSketch) (member : ObjectId)
  | methodCall (receiver : ExprSketch) (name : String) (sig : TypeId) (args : List ExprSketch)
  | typeAssert (operand : ExprSketch) (target : TypeId)
  | conversion (target : TypeId) (operand : ExprSketch)
  | compositeLit (type : TypeId) (elements : List ExprSketch)
  | keyValue (field : String) (type : TypeId) (value : ExprSketch)
  | funcLit (params : List ObjectId) (body : List StmtSketch)
  | literal (value : String) (type : TypeId)
  /-- A finished expression. -/
  | done (expr : Expr)

inductive StmtSketch where
  | expr (expr : ExprSketch)
  | define (object : ObjectId) (value : ExprSketch)
  /-- A finished statement. -/
  | done (stmt : Stmt)
end

mutual
/-- Draws an expression, its parts first and in order. -/
def ExprSketch.draw : ExprSketch → Drafting Expr
  | .use object => return (← get).useExpr object
  | .type type => return (← get).typeExpr type
  | .call callee args spread => do
    let callee ← callee.draw
    let args ← ExprSketch.drawAll args
    return (← get).call callee args spread
  | .selector operand member => do
    let operand ← operand.draw
    return (← get).selector operand member
  | .methodCall receiver name sig args => do
    let receiver ← receiver.draw
    let args ← ExprSketch.drawAll args
    return (← get).methodCall receiver name sig args
  | .typeAssert operand target => do
    let operand ← operand.draw
    return (← get).typeAssert operand target
  | .conversion target operand => do
    let operand ← operand.draw
    return (← get).conversion target operand
  | .compositeLit type elements => do
    let elements ← ExprSketch.drawAll elements
    return (← get).compositeLit type elements
  | .keyValue field type value => return Draft.keyValue field type (← value.draw)
  | .funcLit params body => do Draft.funcLit params (← StmtSketch.drawAll body)
  | .literal value type => return Draft.literal value type
  | .done expr => return expr

def ExprSketch.drawAll : List ExprSketch → Drafting (List Expr)
  | [] => return []
  | sketch :: sketches => return (← sketch.draw) :: (← ExprSketch.drawAll sketches)

def StmtSketch.draw : StmtSketch → Drafting Stmt
  | .expr expr => return .expr (← expr.draw)
  | .define object value => do
    let value ← value.draw
    return (← get).define object value
  | .done stmt => return stmt

def StmtSketch.drawAll : List StmtSketch → Drafting (List Stmt)
  | [] => return []
  | sketch :: sketches => return (← sketch.draw) :: (← StmtSketch.drawAll sketches)
end

namespace Draft

/-- What a step answers. -/
inductive Answer where
  | nothing
  | package (id : PackageId)
  | file (id : FileId)
  | type (id : TypeId)
  | object (id : ObjectId)
  | ident (ident : Ident)
  | expr (expr : Expr)
  | stmt (stmt : Stmt)

inductive Step where
  | home
  | package (path name : String)
  | file (name : String)
  | addType (form : TypeForm)
  | basic (name : String)
  | pointer (elem : TypeId)
  | slice (elem : TypeId)
  | signature (params results : List TypeId) (variadic : Bool)
  | boundSignature (params : List ObjectId) (results : List TypeId)
  | interface (methods : List (String × TypeId)) (embeds : List TypeId)
  | struct (fields : List (String × TypeId)) (embeds : List TypeId)
  | named (package : PackageId) (name : String) (underlying : TypeId)
  | namedInterface (package : PackageId) (name : String) (methods : List (String × TypeId))
      (embeds : List TypeId)
  | addMethod (type : TypeId) (name : String) (sig : TypeId) (pointerReceiver : Bool)
  | addObject (object : Object)
  | var (name : String) (type : TypeId)
  | func (package : PackageId) (name : String) (sig : TypeId)
  | builtin (name : String)
  | pushDecl (decl : Decl)
  | typeDecl (type : TypeId)
  | funcDecl (name : String) (params : List ObjectId) (results : List TypeId)
      (body : List StmtSketch)
  | methodDecl (type : TypeId) (pointerReceiver : Bool) (name : String) (params : List ObjectId)
      (results : List TypeId) (body : List StmtSketch)
  | defIdent (object : ObjectId)
  | expr (sketch : ExprSketch)
  | stmt (sketch : StmtSketch)

/-- Takes a step. The body of a declaration is drawn before the declaration is made. -/
def Step.take : Step → Drafting Answer
  | .home => return .package (← Draft.home)
  | .package path name => return .package (← Draft.package path name)
  | .file name => return .file (← beginFile name)
  | .addType form => return .type (← Draft.addType form)
  | .basic name => return .type (← Draft.basic name)
  | .pointer elem => return .type (← Draft.pointer elem)
  | .slice elem => return .type (← Draft.slice elem)
  | .signature params results variadic => return .type (← Draft.signature params results variadic)
  | .boundSignature params results => return .type (← Draft.boundSignature params results)
  | .interface methods embeds => return .type (← Draft.interface methods embeds)
  | .struct fields embeds => return .type (← structOf fields embeds)
  | .named pkg name underlying => return .type (← Draft.named pkg name underlying)
  | .namedInterface pkg name methods embeds =>
    return .type (← Draft.namedInterface pkg name methods embeds)
  | .addMethod type name sig pointerReceiver =>
    return .object (← Draft.addMethod type name sig pointerReceiver)
  | .addObject object => return .object (← Draft.addObject object)
  | .var name type => return .object (← Draft.var name type)
  | .func pkg name sig => return .object (← Draft.func pkg name sig)
  | .builtin name => return .object (← Draft.builtin name)
  | .pushDecl decl => do Draft.pushDecl decl; return .nothing
  | .typeDecl type => do Draft.typeDecl type; return .nothing
  | .funcDecl name params results body => do
    let body ← StmtSketch.drawAll body
    return .object (← Draft.funcDecl name params results body)
  | .methodDecl type pointerReceiver name params results body => do
    let body ← StmtSketch.drawAll body
    return .object (← Draft.methodDecl type pointerReceiver name params results body)
  | .defIdent object => return .ident ((← get).defIdent object)
  | .expr sketch => return .expr (← sketch.draw)
  | .stmt sketch => return .stmt (← sketch.draw)

/-- Takes steps one after the other; the answers are in order. -/
def takeAll : List Step → Drafting (List Answer)
  | [] => return []
  | step :: steps => return (← step.take) :: (← takeAll steps)

end Draft

/-- Writes a package step by step. -/
def Program.draft (path name : String) (steps : List Draft.Step) : List Draft.Answer × Program :=
  let (answers, draft) := (Draft.takeAll steps).run (.start path name)
  (answers, draft.program)

end LeastContext
