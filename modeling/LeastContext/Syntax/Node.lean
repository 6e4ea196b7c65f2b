import LeastContext.Syntax.Basic

namespace LeastContext

inductive Node where
  | file (file : SourceFile)
  | decl (decl : Decl)
  | funcDecl (decl : FuncDecl)
  | genDecl (decl : GenDecl)
  | spec (spec : Spec)
  | funcType (signature : FuncType)
  | field (field : Field)
  | block (block : Block)
  | stmt (stmt : Stmt)
  | caseClause (clause : CaseClause)
  | expr (expr : Expr)
  | ident (ident : Ident)

def Spec.children : Spec → List Node
  | .importing name _ => name.toList.map .ident
  | .value names annotation values =>
    names.map .ident ++ annotation.toList.map .expr ++ values.map .expr
  | .type name definition => [.ident name, .expr definition]

def Stmt.children : Stmt → List Node
  | .expr e => [.expr e]
  | .decl d => [.genDecl d]
  | .assign targets values _ => targets.map .expr ++ values.map .expr
  | .incDec operand => [.expr operand]
  | .returning results => results.map .expr
  | .block b => [.block b]
  | .ifThen init condition body otherwise =>
    init.toList.map .stmt ++ [.expr condition, .block body] ++ otherwise.toList.map .stmt
  | .forLoop init condition post body =>
    init.toList.map .stmt ++ condition.toList.map .expr ++ post.toList.map .stmt ++ [.block body]
  | .range key value operand body =>
    key.toList.map .expr ++ value.toList.map .expr ++ [.expr operand, .block body]
  | .switch init tag clauses =>
    init.toList.map .stmt ++ tag.toList.map .expr ++ clauses.map .caseClause
  | .typeSwitch init guard clauses =>
    init.toList.map .stmt ++ [.stmt guard] ++ clauses.map .caseClause
  | .go call => [.expr call]
  | .defer call => [.expr call]
  | .branch _ => []

def ExprForm.children : ExprForm → List Node
  | .ident name => [.ident name]
  | .literal _ => []
  | .paren inner => [.expr inner]
  | .selector operand member => [.expr operand, .ident member]
  | .call callee args _ => .expr callee :: args.map .expr
  | .conversion target operand => [.expr target, .expr operand]
  | .typeAssert operand target => .expr operand :: target.toList.map .expr
  | .compositeLit type elements => type.toList.map .expr ++ elements.map .expr
  | .keyValue key value => [.expr key, .expr value]
  | .funcLit signature body => [.funcType signature, .block body]
  | .unary _ operand => [.expr operand]
  | .binary _ left right => [.expr left, .expr right]
  | .star operand => [.expr operand]
  | .index operand position => [.expr operand, .expr position]
  | .sliceOf operand low high => .expr operand :: (low.toList.map .expr ++ high.toList.map .expr)
  | .funcType signature => [.funcType signature]
  | .interfaceType members => members.map .field
  | .structType fields => fields.map .field
  | .arrayType length elem => length.toList.map .expr ++ [.expr elem]
  | .mapType key value => [.expr key, .expr value]
  | .ellipsis elem => [.expr elem]

namespace Node

def children : Node → List Node
  | .file f => f.decls.map .decl
  | .decl (.func d) => [.funcDecl d]
  | .decl (.gen d) => [.genDecl d]
  | .funcDecl d =>
    (d.receiver.getD []).map .field ++ [.ident d.name, .funcType d.signature] ++
      d.body.toList.map .block
  | .genDecl d => d.specs.map .spec
  | .spec s => s.children
  | .funcType signature => signature.params.map .field ++ signature.results.map .field
  | .field f => f.names.map .ident ++ [.expr f.type]
  | .block b => b.stmts.map .stmt
  | .stmt s => s.children
  | .caseClause clause => clause.cases.map .expr ++ clause.body.map .stmt
  | .expr e => e.form.children
  | .ident _ => []

theorem sizeOf_lt_of_mem_children {node child : Node} (h : child ∈ node.children) :
    sizeOf child < sizeOf node := by
  cases node with
  | file file => cases file; simp [children] at h; grind [→ List.sizeOf_lt_of_mem]
  | decl decl => cases decl <;> simp [children] at h <;> grind
  | funcDecl decl =>
    obtain ⟨receiver, name, signature, body⟩ := decl
    cases receiver <;> simp [children] at h <;> grind [→ List.sizeOf_lt_of_mem]
  | genDecl decl => cases decl; simp [children] at h; grind [→ List.sizeOf_lt_of_mem]
  | spec spec =>
    cases spec <;> simp [children, Spec.children] at h <;> grind [→ List.sizeOf_lt_of_mem]
  | funcType signature => cases signature; simp [children] at h; grind [→ List.sizeOf_lt_of_mem]
  | field field => cases field; simp [children] at h; grind [→ List.sizeOf_lt_of_mem]
  | block block => cases block; simp [children] at h; grind [→ List.sizeOf_lt_of_mem]
  | stmt stmt =>
    cases stmt <;> simp [children, Stmt.children] at h <;> grind [→ List.sizeOf_lt_of_mem]
  | caseClause clause => cases clause; simp [children] at h; grind [→ List.sizeOf_lt_of_mem]
  | expr expr =>
    obtain ⟨form, type⟩ := expr
    cases form <;> simp [children, ExprForm.children] at h <;> grind [→ List.sizeOf_lt_of_mem]
  | ident ident => simp [children] at h

/-- The nodes met from a node on, with their depth. -/
def outline (enter : Node → Bool) (depth : Nat) (node : Node) : List (Nat × Node) :=
  (depth, node) ::
    if enter node then
      node.children.attach.flatMap fun ⟨child, _⟩ => outline enter (depth + 1) child
    else []
termination_by sizeOf node
decreasing_by exact sizeOf_lt_of_mem_children ‹_›

/-- The nodes met from a node on. -/
def walk (enter : Node → Bool) (node : Node) : List Node :=
  node ::
    if enter node then node.children.attach.flatMap fun ⟨child, _⟩ => walk enter child else []
termination_by sizeOf node
decreasing_by exact sizeOf_lt_of_mem_children ‹_›

/-- Every node of a tree, each before its children. -/
def all (node : Node) : List Node :=
  node.walk fun _ => true

end Node

end LeastContext
