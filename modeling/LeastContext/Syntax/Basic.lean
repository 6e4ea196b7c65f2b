import LeastContext.Program.Handle

namespace LeastContext

inductive Binding where
  | defines (object : ObjectId)
  | uses (object : ObjectId)
  deriving DecidableEq, Inhabited, Repr

structure Ident where
  name : String
  pos : Position
  binding : Option Binding
  deriving DecidableEq, Inhabited, Repr

inductive DeclKind where
  | imports
  | constants
  | types
  | variables
  deriving DecidableEq, Inhabited, Repr

mutual
structure Expr where
  form : ExprForm
  type : Option TypeId

inductive ExprForm where
  | ident (ident : Ident)
  | literal (text : String)
  | paren (inner : Expr)
  | selector (operand : Expr) (member : Ident)
  | call (callee : Expr) (args : List Expr) (spread : Bool)
  | conversion (target operand : Expr)
  /-- The target is absent in the guard of a type switch. -/
  | typeAssert (operand : Expr) (target : Option Expr)
  | compositeLit (type : Option Expr) (elements : List Expr)
  | keyValue (key value : Expr)
  | funcLit (signature : FuncType) (body : Block)
  | unary (operator : String) (operand : Expr)
  | binary (operator : String) (left right : Expr)
  | star (operand : Expr)
  | index (operand position : Expr)
  | sliceOf (operand : Expr) (low high : Option Expr)
  | funcType (signature : FuncType)
  | interfaceType (members : List Field)
  | structType (fields : List Field)
  | arrayType (length : Option Expr) (elem : Expr)
  | mapType (key value : Expr)
  | ellipsis (elem : Expr)

/-- A signature as written: the fields of its parameters and results. -/
structure FuncType where
  params : List Field
  results : List Field

/-- A parameter, result, struct field or interface member, without names where it has none. -/
structure Field where
  names : List Ident
  type : Expr

structure Block where
  stmts : List Stmt

/-- A clause of a switch; the default clause has no cases. -/
structure CaseClause where
  cases : List Expr
  body : List Stmt

structure GenDecl where
  kind : DeclKind
  specs : List Spec

inductive Spec where
  | importing (name : Option Ident) (path : String)
  | value (names : List Ident) (type : Option Expr) (values : List Expr)
  | type (name : Ident) (definition : Expr)

inductive Stmt where
  | expr (expr : Expr)
  | decl (decl : GenDecl)
  | assign (targets values : List Expr) (define : Bool)
  | incDec (operand : Expr)
  | returning (results : List Expr)
  | block (block : Block)
  | ifThen (init : Option Stmt) (condition : Expr) (body : Block) (otherwise : Option Stmt)
  | forLoop (init : Option Stmt) (condition : Option Expr) (post : Option Stmt) (body : Block)
  | range (key value : Option Expr) (operand : Expr) (body : Block)
  | switch (init : Option Stmt) (tag : Option Expr) (clauses : List CaseClause)
  | typeSwitch (init : Option Stmt) (guard : Stmt) (clauses : List CaseClause)
  | go (call : Expr)
  | defer (call : Expr)
  | branch (keyword : String)
end

/-- A function or, with a receiver list, a method. -/
structure FuncDecl where
  receiver : Option (List Field)
  name : Ident
  signature : FuncType
  body : Option Block

inductive Decl where
  | func (decl : FuncDecl)
  | gen (decl : GenDecl)

structure SourceFile where
  id : FileId
  name : String
  decls : List Decl

def Binding.object : Binding → ObjectId
  | .defines object | .uses object => object

namespace Ident

/-- The object an identifier declares, if it is a declaration. -/
def defined? (ident : Ident) : Option ObjectId :=
  match ident.binding with
  | some (.defines object) => some object
  | _ => none

/-- The object an identifier denotes, declared here or elsewhere. -/
def object? (ident : Ident) : Option ObjectId :=
  ident.binding.map Binding.object

end Ident

mutual
/-- The identifier of an expression that is one, up to parentheses. -/
def Expr.ident? : Expr → Option Ident
  | ⟨form, _⟩ => form.ident?

def ExprForm.ident? : ExprForm → Option Ident
  | .ident ident => some ident
  | .paren inner => inner.ident?
  | _ => none
end

end LeastContext
