import LeastContext.Dump.Fields
import LeastContext.Program.Basic

namespace LeastContext.Dump

def word? : Json → Option UInt32
  | .natural value => if value < UInt32.size then some value.toUInt32 else none
  | _ => none

def longWord? : Json → Option UInt64
  | .natural value => if value < UInt64.size then some value.toUInt64 else none
  | _ => none

def typeId? (value : Json) : Option TypeId :=
  (value.asNatBelow? UInt32.size).map .mk

def objectId? (value : Json) : Option ObjectId :=
  (value.asNatBelow? UInt32.size).map .mk

def packageId? (value : Json) : Option PackageId :=
  (value.asNatBelow? UInt32.size).map .mk

def fileId? (value : Json) : Option FileId :=
  (word? value).map .mk

def package? : Json → Option Package :=
  record do
    let path ← required "path" Json.asText?
    let name ← required "name" Json.asText?
    return { path, name }

def position? : Json → Option Position :=
  record do
    let file ← required "file" fileId?
    let line ← required "line" word?
    let column ← required "column" word?
    return { file, line, column }

def param? : Json → Option Param :=
  record do
    let type ← required "ty" typeId?
    let object ← optional "object" objectId?
    return { type, object }

def interfaceMethod? : Json → Option InterfaceMethod :=
  record do
    let name ← required "name" Json.asText?
    let package ← optional "package" packageId?
    let signature ← required "signature" typeId?
    return { name, package, signature }

def declaredMethod? : Json → Option DeclaredMethod :=
  record do
    let func ← required "func" objectId?
    let pointerReceiver ← required "pointer_receiver" Json.asBool?
    return { func, pointerReceiver }

def structField? : Json → Option StructField :=
  record do
    let name ← required "name" Json.asText?
    let type ← required "ty" typeId?
    let embedded ← withDefault "embedded" false Json.asBool?
    return { name, type, embedded }

def typeKinds : List String :=
  ["basic", "named", "pointer", "slice", "array", "map", "signature", "struct", "interface"]

def typeFormFields : String → FieldReader TypeForm
  | "basic" => return .basic (← required "name" Json.asText?)
  | "named" => do
    let name ← required "name" Json.asText?
    let package ← optionalListed "package" packageId?
    let underlying ← required "underlying" typeId?
    let methods ← withDefault "methods" [] (Json.asList? declaredMethod?)
    return .named { name, package, underlying, methods }
  | "pointer" => return .pointer (← required "elem" typeId?)
  | "slice" => return .slice (← required "elem" typeId?)
  | "array" => do
    let length ← required "len" longWord?
    let elem ← required "elem" typeId?
    return .array length elem
  | "map" => do
    let key ← required "key" typeId?
    let value ← required "value" typeId?
    return .map key value
  | "signature" => do
    let params ← required "params" (Json.asList? param?)
    let results ← withDefault "results" [] (Json.asList? typeId?)
    let variadic ← withDefault "variadic" false Json.asBool?
    return .signature { params, results, variadic }
  | "struct" => return .struct (← required "fields" (Json.asList? structField?))
  | "interface" => do
    let methods ← withDefault "methods" [] (Json.asList? interfaceMethod?)
    let embeds ← withDefault "embeds" [] (Json.asList? typeId?)
    return .interface { methods, embeds }
  | _ => failure

def typeForm? : Json → Option TypeForm :=
  tagged "kind" typeKinds false typeFormFields

def objectKinds : List String :=
  ["var", "field", "type_name", "func", "method", "const", "pkg_name", "builtin"]

def objectKindFields : String → FieldReader ObjectKind
  | "var" => return .variable
  | "field" => return .field
  | "type_name" => return .typeName
  | "func" => return .func
  | "method" => return .method (← required "receiver" typeId?)
  | "const" => return .constant
  | "pkg_name" => return .packageName
  | "builtin" => return .builtin
  | _ => failure

def object? : Json → Option Object :=
  taggedWithin "kind" objectKinds fun name => do
    let kind ← objectKindFields name
    let name ← required "name" Json.asText?
    let package ← optional "package" packageId?
    let type ← optional "ty" typeId?
    let pos ← optional "pos" position?
    return { name, kind, package, type, pos }

def binding? : Json → Option Binding
  | .record [("def", value)] => (objectId? value).map .defines
  | .record [("use", value)] => (objectId? value).map .uses
  | _ => none

def ident? : Json → Option Ident :=
  record do
    let name ← required "name" Json.asText?
    let pos ← withDefault "pos" ⟨⟨0⟩, 0, 0⟩ position?
    let binding ← optional "binding" binding?
    return { name, pos, binding }

/-- A bare word, or a record that holds nothing under it. -/
def bareWord? : Json → Option String
  | .text name => some name
  | .record [(name, .null)] => some name
  | .record [(name, .record [])] => some name
  | _ => none

def declKind? (value : Json) : Option DeclKind :=
  match bareWord? value with
  | some "import" => some .imports
  | some "const" => some .constants
  | some "type" => some .types
  | some "var" => some .variables
  | _ => none

def specTags : List String :=
  ["import", "value", "type"]

def stmtTags : List String :=
  ["expr", "decl", "assign", "inc_dec", "return", "block", "if", "for", "range", "switch",
   "type_switch", "go", "defer", "branch"]

def exprTags : List String :=
  ["ident", "lit", "paren", "selector", "call", "conversion", "type_assert", "composite_lit",
   "key_value", "func_lit", "unary", "binary", "star", "index", "slice_expr", "func_type",
   "interface_type", "struct_type", "array_type", "map_type", "ellipsis"]

/-- The readers of the kinds of trees that a tree is made of. -/
structure TreeReaders where
  expr : Json → Option Expr
  stmt : Json → Option Stmt

namespace TreeReaders

variable (readers : TreeReaders)

def exprs : Json → Option (List Expr) :=
  Json.asList? readers.expr

def field : Json → Option Field :=
  record do
    let names ← withDefault "names" [] (Json.asList? ident?)
    let type ← required "ty" readers.expr
    return { names, type }

def funcType : Json → Option FuncType :=
  record do
    let params ← withDefault "params" [] (Json.asList? readers.field)
    let results ← withDefault "results" [] (Json.asList? readers.field)
    return { params, results }

def block : Json → Option Block :=
  record do
    let stmts ← withDefault "stmts" [] (Json.asList? readers.stmt)
    return { stmts }

def caseClause : Json → Option CaseClause :=
  record do
    let cases ← withDefault "list" [] readers.exprs
    let body ← withDefault "body" [] (Json.asList? readers.stmt)
    return { cases, body }

def specFields : String → FieldReader Spec
  | "import" => do
    let name ← optional "name" ident?
    let path ← required "path" Json.asText?
    return .importing name path
  | "value" => do
    let names ← required "names" (Json.asList? ident?)
    let type ← optional "ty" readers.expr
    let values ← withDefault "values" [] readers.exprs
    return .value names type values
  | "type" => do
    let name ← required "name" ident?
    let definition ← required "ty" readers.expr
    return .type name definition
  | _ => failure

def spec : Json → Option Spec :=
  tagged "spec" specTags true readers.specFields

def genDeclFields : FieldReader GenDecl := do
  let kind ← required "kind" declKind?
  let specs ← withDefault "specs" [] (Json.asList? readers.spec)
  return { kind, specs }

def stmtFields : String → FieldReader Stmt
  | "expr" => return .expr (← required "expr" readers.expr)
  | "decl" => return .decl (← required "decl" (record readers.genDeclFields))
  | "assign" => do
    let targets ← required "lhs" readers.exprs
    let values ← required "rhs" readers.exprs
    let define ← withDefault "define" false Json.asBool?
    return .assign targets values define
  | "inc_dec" => return .incDec (← required "expr" readers.expr)
  | "return" => return .returning (← withDefault "results" [] readers.exprs)
  | "block" => return .block (← required "block" readers.block)
  | "if" => do
    let init ← optional "init" readers.stmt
    let condition ← required "cond" readers.expr
    let body ← required "then" readers.block
    let otherwise ← optional "els" readers.stmt
    return .ifThen init condition body otherwise
  | "for" => do
    let init ← optional "init" readers.stmt
    let condition ← optional "cond" readers.expr
    let post ← optional "post" readers.stmt
    let body ← required "body" readers.block
    return .forLoop init condition post body
  | "range" => do
    let key ← optional "key" readers.expr
    let value ← optional "value" readers.expr
    let operand ← required "x" readers.expr
    let body ← required "body" readers.block
    return .range key value operand body
  | "switch" => do
    let init ← optional "init" readers.stmt
    let tag ← optional "tag" readers.expr
    let clauses ← required "clauses" (Json.asList? readers.caseClause)
    return .switch init tag clauses
  | "type_switch" => do
    let init ← optional "init" readers.stmt
    let guard ← required "assign" readers.stmt
    let clauses ← required "clauses" (Json.asList? readers.caseClause)
    return .typeSwitch init guard clauses
  | "go" => return .go (← required "call" readers.expr)
  | "defer" => return .defer (← required "call" readers.expr)
  | "branch" => return .branch (← required "keyword" Json.asText?)
  | _ => failure

def exprFields : String → FieldReader ExprForm
  | "ident" => return .ident (← required "ident" ident?)
  | "lit" => return .literal (← required "value" Json.asText?)
  | "paren" => return .paren (← required "x" readers.expr)
  | "selector" => do
    let operand ← required "x" readers.expr
    let member ← required "sel" ident?
    return .selector operand member
  | "call" => do
    let callee ← required "fun" readers.expr
    let args ← withDefault "args" [] readers.exprs
    let spread ← withDefault "ellipsis" false Json.asBool?
    return .call callee args spread
  | "conversion" => do
    let target ← required "to" readers.expr
    let operand ← required "x" readers.expr
    return .conversion target operand
  | "type_assert" => do
    let operand ← required "x" readers.expr
    let target ← optional "to" readers.expr
    return .typeAssert operand target
  | "composite_lit" => do
    let type ← optional "lit_type" readers.expr
    let elements ← withDefault "elts" [] readers.exprs
    return .compositeLit type elements
  | "key_value" => do
    let key ← required "key" readers.expr
    let value ← required "value" readers.expr
    return .keyValue key value
  | "func_lit" => do
    let signature ← required "sig" readers.funcType
    let body ← required "body" readers.block
    return .funcLit signature body
  | "unary" => do
    let operator ← required "op" Json.asText?
    let operand ← required "x" readers.expr
    return .unary operator operand
  | "binary" => do
    let operator ← required "op" Json.asText?
    let left ← required "x" readers.expr
    let right ← required "y" readers.expr
    return .binary operator left right
  | "star" => return .star (← required "x" readers.expr)
  | "index" => do
    let operand ← required "x" readers.expr
    let position ← required "index" readers.expr
    return .index operand position
  | "slice_expr" => do
    let operand ← required "x" readers.expr
    let low ← optional "low" readers.expr
    let high ← optional "high" readers.expr
    return .sliceOf operand low high
  | "func_type" => return .funcType (← required "sig" readers.funcType)
  | "interface_type" =>
    return .interfaceType (← withDefault "members" [] (Json.asList? readers.field))
  | "struct_type" =>
    return .structType (← withDefault "fields" [] (Json.asList? readers.field))
  | "array_type" => do
    let length ← optional "len" readers.expr
    let elem ← required "elem" readers.expr
    return .arrayType length elem
  | "map_type" => do
    let key ← required "key" readers.expr
    let value ← required "value" readers.expr
    return .mapType key value
  | "ellipsis" => return .ellipsis (← required "elem" readers.expr)
  | _ => failure

end TreeReaders

/-- The readers of trees that lie at most `depth` levels of JSON deep. -/
def treeReaders : Nat → TreeReaders
  | 0 => { expr := fun _ => none, stmt := fun _ => none }
  | depth + 1 =>
    let readers := treeReaders depth
    { expr := taggedWithin "expr" exprTags fun name => do
        let form ← readers.exprFields name
        let type ← optional "ty" typeId?
        return { form, type }
      stmt := tagged "stmt" stmtTags true readers.stmtFields }

def expr? (value : Json) : Option Expr :=
  (treeReaders value.depth).expr value

def stmt? (value : Json) : Option Stmt :=
  (treeReaders value.depth).stmt value

def declFields (readers : TreeReaders) : String → FieldReader Decl
  | "func" => do
    let receiver ← optional "recv" (Json.asList? readers.field)
    let name ← required "name" ident?
    let signature ← required "ty" readers.funcType
    let body ← optional "body" readers.block
    return .func { receiver, name, signature, body }
  | "gen" => return .gen (← readers.genDeclFields)
  | _ => failure

def decl? (value : Json) : Option Decl :=
  tagged "decl" ["func", "gen"] false (declFields (treeReaders value.depth)) value

def sourceFile? : Json → Option SourceFile :=
  record do
    let id ← required "id" fileId?
    let name ← required "name" Json.asText?
    let decls ← withDefault "decls" [] (Json.asList? decl?)
    return { id, name, decls }

def program? : Json → Option Program :=
  record do
    let package ← required "package" packageId?
    let packages ← required "packages" (Json.asList? package?)
    let types ← required "types" (Json.asList? typeForm?)
    let objects ← required "objects" (Json.asList? object?)
    let files ← required "files" (Json.asList? sourceFile?)
    return { package, packages := packages.toArray, types := types.toArray,
             objects := objects.toArray, files }

end LeastContext.Dump
