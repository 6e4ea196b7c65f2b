import LeastContext.Json.Basic
import LeastContext.Program.Basic
import LeastContext.Syntax.Tag

namespace LeastContext

def TypeId.toJson (id : TypeId) : Json :=
  .natural id.index

def ObjectId.toJson (id : ObjectId) : Json :=
  .natural id.index

def PackageId.toJson (id : PackageId) : Json :=
  .natural id.index

def FileId.toJson (id : FileId) : Json :=
  .natural id.number.toNat

def Package.toJson (package : Package) : Json :=
  .record [("path", .text package.path), ("name", .text package.name)]

def Position.toJson (pos : Position) : Json :=
  .record [("file", pos.file.toJson), ("line", .natural pos.line.toNat),
    ("column", .natural pos.column.toNat)]

def Param.toJson (param : Param) : Json :=
  .record (("ty", param.type.toJson) :: (param.object.map fun id => ("object", id.toJson)).toList)

def InterfaceMethod.toJson (method : InterfaceMethod) : Json :=
  .record [("name", .text method.name), ("package", .ofOption PackageId.toJson method.package),
    ("signature", method.signature.toJson)]

def DeclaredMethod.toJson (method : DeclaredMethod) : Json :=
  .record [("func", method.func.toJson), ("pointer_receiver", .bool method.pointerReceiver)]

def StructField.toJson (field : StructField) : Json :=
  .record [("name", .text field.name), ("ty", field.type.toJson),
    ("embedded", .bool field.embedded)]

def TypeForm.toJson : TypeForm → Json
  | .basic name => .record [("kind", .text "basic"), ("name", .text name)]
  | .named decl =>
    .record [("kind", .text "named"), ("name", .text decl.name),
      ("package", .ofOption PackageId.toJson decl.package), ("underlying", decl.underlying.toJson),
      ("methods", .ofList DeclaredMethod.toJson decl.methods)]
  | .pointer elem => .record [("kind", .text "pointer"), ("elem", elem.toJson)]
  | .slice elem => .record [("kind", .text "slice"), ("elem", elem.toJson)]
  | .array length elem =>
    .record [("kind", .text "array"), ("len", .natural length.toNat), ("elem", elem.toJson)]
  | .map key value =>
    .record [("kind", .text "map"), ("key", key.toJson), ("value", value.toJson)]
  | .signature sig =>
    .record [("kind", .text "signature"), ("params", .ofList Param.toJson sig.params),
      ("results", .ofList TypeId.toJson sig.results), ("variadic", .bool sig.variadic)]
  | .struct fields =>
    .record [("kind", .text "struct"), ("fields", .ofList StructField.toJson fields)]
  | .interface body =>
    .record [("kind", .text "interface"), ("methods", .ofList InterfaceMethod.toJson body.methods),
      ("embeds", .ofList TypeId.toJson body.embeds)]

def ObjectKind.toFields : ObjectKind → List (String × Json)
  | .variable => [("kind", .text "var")]
  | .field => [("kind", .text "field")]
  | .typeName => [("kind", .text "type_name")]
  | .func => [("kind", .text "func")]
  | .method receiver => [("kind", .text "method"), ("receiver", receiver.toJson)]
  | .constant => [("kind", .text "const")]
  | .packageName => [("kind", .text "pkg_name")]
  | .builtin => [("kind", .text "builtin")]

def Object.toJson (object : Object) : Json :=
  .record (("name", .text object.name) :: object.kind.toFields ++
    [("package", .ofOption PackageId.toJson object.package),
     ("ty", .ofOption TypeId.toJson object.type), ("pos", .ofOption Position.toJson object.pos)])

def Binding.toJson : Binding → Json
  | .defines object => .record [("def", object.toJson)]
  | .uses object => .record [("use", object.toJson)]

def Ident.toJson (ident : Ident) : Json :=
  .record [("name", .text ident.name), ("pos", ident.pos.toJson),
    ("binding", .ofOption Binding.toJson ident.binding)]

mutual
def Expr.toJson : Expr → Json
  | ⟨form, type⟩ =>
    .record (("expr", .text form.tag) :: ("ty", .ofOption TypeId.toJson type) :: form.toFields)

def ExprForm.toFields : ExprForm → List (String × Json)
  | .ident name => [("ident", name.toJson)]
  | .literal text => [("value", .text text)]
  | .paren inner => [("x", inner.toJson)]
  | .selector operand member => [("x", operand.toJson), ("sel", member.toJson)]
  | .call callee args spread =>
    [("fun", callee.toJson), ("args", .list (exprsToJson args)), ("ellipsis", .bool spread)]
  | .conversion target operand => [("to", target.toJson), ("x", operand.toJson)]
  | .typeAssert operand target => [("x", operand.toJson), ("to", exprOrNull target)]
  | .compositeLit type elements =>
    [("lit_type", exprOrNull type), ("elts", .list (exprsToJson elements))]
  | .keyValue key value => [("key", key.toJson), ("value", value.toJson)]
  | .funcLit signature body => [("sig", signature.toJson), ("body", body.toJson)]
  | .unary operator operand => [("op", .text operator), ("x", operand.toJson)]
  | .binary operator left right =>
    [("op", .text operator), ("x", left.toJson), ("y", right.toJson)]
  | .star operand => [("x", operand.toJson)]
  | .index operand position => [("x", operand.toJson), ("index", position.toJson)]
  | .sliceOf operand low high =>
    [("x", operand.toJson), ("low", exprOrNull low), ("high", exprOrNull high)]
  | .funcType signature => [("sig", signature.toJson)]
  | .interfaceType members => [("members", .list (fieldsToJson members))]
  | .structType fields => [("fields", .list (fieldsToJson fields))]
  | .arrayType length elem => [("len", exprOrNull length), ("elem", elem.toJson)]
  | .mapType key value => [("key", key.toJson), ("value", value.toJson)]
  | .ellipsis elem => [("elem", elem.toJson)]

def FuncType.toJson : FuncType → Json
  | ⟨params, results⟩ =>
    .record [("params", .list (fieldsToJson params)), ("results", .list (fieldsToJson results))]

def Field.toJson : Field → Json
  | ⟨names, type⟩ => .record [("names", .ofList Ident.toJson names), ("ty", type.toJson)]

def Block.toJson : Block → Json
  | ⟨stmts⟩ => .record [("stmts", .list (stmtsToJson stmts))]

def CaseClause.toJson : CaseClause → Json
  | ⟨cases, body⟩ =>
    .record [("list", .list (exprsToJson cases)), ("body", .list (stmtsToJson body))]

def GenDecl.toFields : GenDecl → List (String × Json)
  | ⟨kind, specs⟩ => [("kind", .text kind.word), ("specs", .list (specsToJson specs))]

def Spec.toJson : Spec → Json
  | .importing name path =>
    .record [("spec", .text "import"), ("name", .ofOption Ident.toJson name), ("path", .text path)]
  | .value names type values =>
    .record [("spec", .text "value"), ("names", .ofList Ident.toJson names),
      ("ty", exprOrNull type), ("values", .list (exprsToJson values))]
  | .type name definition =>
    .record [("spec", .text "type"), ("name", name.toJson), ("ty", definition.toJson)]

def Stmt.toJson : Stmt → Json
  | .expr e => .record [("stmt", .text "expr"), ("expr", e.toJson)]
  | .decl d => .record [("stmt", .text "decl"), ("decl", .record d.toFields)]
  | .assign targets values define =>
    .record [("stmt", .text "assign"), ("lhs", .list (exprsToJson targets)),
      ("rhs", .list (exprsToJson values)), ("define", .bool define)]
  | .incDec operand => .record [("stmt", .text "inc_dec"), ("expr", operand.toJson)]
  | .returning results =>
    .record [("stmt", .text "return"), ("results", .list (exprsToJson results))]
  | .block b => .record [("stmt", .text "block"), ("block", b.toJson)]
  | .ifThen init condition body otherwise =>
    .record [("stmt", .text "if"), ("init", stmtOrNull init), ("cond", condition.toJson),
      ("then", body.toJson), ("els", stmtOrNull otherwise)]
  | .forLoop init condition post body =>
    .record [("stmt", .text "for"), ("init", stmtOrNull init), ("cond", exprOrNull condition),
      ("post", stmtOrNull post), ("body", body.toJson)]
  | .range key value operand body =>
    .record [("stmt", .text "range"), ("key", exprOrNull key), ("value", exprOrNull value),
      ("x", operand.toJson), ("body", body.toJson)]
  | .switch init tag clauses =>
    .record [("stmt", .text "switch"), ("init", stmtOrNull init), ("tag", exprOrNull tag),
      ("clauses", .list (clausesToJson clauses))]
  | .typeSwitch init guard clauses =>
    .record [("stmt", .text "type_switch"), ("init", stmtOrNull init), ("assign", guard.toJson),
      ("clauses", .list (clausesToJson clauses))]
  | .go call => .record [("stmt", .text "go"), ("call", call.toJson)]
  | .defer call => .record [("stmt", .text "defer"), ("call", call.toJson)]
  | .branch keyword => .record [("stmt", .text "branch"), ("keyword", .text keyword)]

def exprOrNull : Option Expr → Json
  | none => .null
  | some e => e.toJson

def exprsToJson : List Expr → List Json
  | [] => []
  | e :: es => e.toJson :: exprsToJson es

def fieldsToJson : List Field → List Json
  | [] => []
  | f :: fs => f.toJson :: fieldsToJson fs

def specsToJson : List Spec → List Json
  | [] => []
  | s :: ss => s.toJson :: specsToJson ss

def clausesToJson : List CaseClause → List Json
  | [] => []
  | c :: cs => c.toJson :: clausesToJson cs

def stmtOrNull : Option Stmt → Json
  | none => .null
  | some s => s.toJson

def stmtsToJson : List Stmt → List Json
  | [] => []
  | s :: ss => s.toJson :: stmtsToJson ss
end

def GenDecl.toJson (decl : GenDecl) : Json :=
  .record decl.toFields

def FuncDecl.toFields (decl : FuncDecl) : List (String × Json) :=
  [("recv", .ofOption (.ofList Field.toJson) decl.receiver), ("name", decl.name.toJson),
   ("ty", decl.signature.toJson), ("body", .ofOption Block.toJson decl.body)]

def Decl.toJson : Decl → Json
  | .func decl => .record (("decl", .text "func") :: decl.toFields)
  | .gen decl => .record (("decl", .text "gen") :: decl.toFields)

def SourceFile.toJson (file : SourceFile) : Json :=
  .record [("id", file.id.toJson), ("name", .text file.name),
    ("decls", .ofList Decl.toJson file.decls)]

def Program.toJson (p : Program) : Json :=
  .record [("package", p.package.toJson), ("packages", .ofList Package.toJson p.packages.toList),
    ("types", .ofList TypeForm.toJson p.types.toList),
    ("objects", .ofList Object.toJson p.objects.toList),
    ("files", .ofList SourceFile.toJson p.files)]

end LeastContext
