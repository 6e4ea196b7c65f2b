import LeastContext.Program.Basic
import LeastContext.Proofs.Lists
import LeastContext.Syntax.Node
import Mathlib.Logic.Equiv.Defs

namespace LeastContext

section Nodes

variable (r : TypeId → TypeId)

def Param.mapTypes (param : Param) : Param :=
  { param with type := r param.type }

def Signature.mapTypes (sig : Signature) : Signature :=
  { sig with params := sig.params.map (Param.mapTypes r), results := sig.results.map r }

def InterfaceMethod.mapTypes (method : InterfaceMethod) : InterfaceMethod :=
  { method with signature := r method.signature }

def Interface.mapTypes (body : Interface) : Interface where
  methods := body.methods.map (InterfaceMethod.mapTypes r)
  embeds := body.embeds.map r

def NamedType.mapTypes (decl : NamedType) : NamedType :=
  { decl with underlying := r decl.underlying }

def StructField.mapTypes (field : StructField) : StructField :=
  { field with type := r field.type }

def TypeForm.mapTypes : TypeForm → TypeForm
  | .basic name => .basic name
  | .named decl => .named (decl.mapTypes r)
  | .pointer elem => .pointer (r elem)
  | .slice elem => .slice (r elem)
  | .array length elem => .array length (r elem)
  | .map key value => .map (r key) (r value)
  | .signature sig => .signature (sig.mapTypes r)
  | .struct fields => .struct (fields.map (StructField.mapTypes r))
  | .interface body => .interface (body.mapTypes r)

def ObjectKind.mapTypes : ObjectKind → ObjectKind
  | .method receiver => .method (r receiver)
  | kind => kind

def Object.mapTypes (object : Object) : Object :=
  { object with kind := object.kind.mapTypes r, type := object.type.map r }

end Nodes

section Trees

variable (r : TypeId → TypeId)

mutual
def Expr.mapTypes : Expr → Expr
  | ⟨form, type⟩ => ⟨form.mapTypes, type.map r⟩

def ExprForm.mapTypes : ExprForm → ExprForm
  | .ident name => .ident name
  | .literal text => .literal text
  | .paren inner => .paren inner.mapTypes
  | .selector operand member => .selector operand.mapTypes member
  | .call callee args spread => .call callee.mapTypes (Expr.mapList args) spread
  | .conversion target operand => .conversion target.mapTypes operand.mapTypes
  | .typeAssert operand target => .typeAssert operand.mapTypes (Expr.mapOption target)
  | .compositeLit type elements => .compositeLit (Expr.mapOption type) (Expr.mapList elements)
  | .keyValue key value => .keyValue key.mapTypes value.mapTypes
  | .funcLit signature body => .funcLit signature.mapTypes body.mapTypes
  | .unary operator operand => .unary operator operand.mapTypes
  | .binary operator left right => .binary operator left.mapTypes right.mapTypes
  | .star operand => .star operand.mapTypes
  | .index operand position => .index operand.mapTypes position.mapTypes
  | .sliceOf operand low high =>
    .sliceOf operand.mapTypes (Expr.mapOption low) (Expr.mapOption high)
  | .funcType signature => .funcType signature.mapTypes
  | .interfaceType members => .interfaceType (Field.mapList members)
  | .structType fields => .structType (Field.mapList fields)
  | .arrayType length elem => .arrayType (Expr.mapOption length) elem.mapTypes
  | .mapType key value => .mapType key.mapTypes value.mapTypes
  | .ellipsis elem => .ellipsis elem.mapTypes

def FuncType.mapTypes : FuncType → FuncType
  | ⟨params, results⟩ => ⟨Field.mapList params, Field.mapList results⟩

def Field.mapTypes : Field → Field
  | ⟨names, type⟩ => ⟨names, type.mapTypes⟩

def Block.mapTypes : Block → Block
  | ⟨stmts⟩ => ⟨Stmt.mapList stmts⟩

def CaseClause.mapTypes : CaseClause → CaseClause
  | ⟨cases, body⟩ => ⟨Expr.mapList cases, Stmt.mapList body⟩

def GenDecl.mapTypes : GenDecl → GenDecl
  | ⟨kind, specs⟩ => ⟨kind, Spec.mapList specs⟩

def Spec.mapTypes : Spec → Spec
  | .importing name path => .importing name path
  | .value names type values => .value names (Expr.mapOption type) (Expr.mapList values)
  | .type name definition => .type name definition.mapTypes

def Stmt.mapTypes : Stmt → Stmt
  | .expr expr => .expr expr.mapTypes
  | .decl decl => .decl decl.mapTypes
  | .assign targets values define => .assign (Expr.mapList targets) (Expr.mapList values) define
  | .incDec operand => .incDec operand.mapTypes
  | .returning results => .returning (Expr.mapList results)
  | .block block => .block block.mapTypes
  | .ifThen init condition body otherwise =>
    .ifThen (Stmt.mapOption init) condition.mapTypes body.mapTypes (Stmt.mapOption otherwise)
  | .forLoop init condition post body =>
    .forLoop (Stmt.mapOption init) (Expr.mapOption condition) (Stmt.mapOption post) body.mapTypes
  | .range key value operand body =>
    .range (Expr.mapOption key) (Expr.mapOption value) operand.mapTypes body.mapTypes
  | .switch init tag clauses =>
    .switch (Stmt.mapOption init) (Expr.mapOption tag) (CaseClause.mapList clauses)
  | .typeSwitch init guard clauses =>
    .typeSwitch (Stmt.mapOption init) guard.mapTypes (CaseClause.mapList clauses)
  | .go call => .go call.mapTypes
  | .defer call => .defer call.mapTypes
  | .branch keyword => .branch keyword

def Expr.mapList : List Expr → List Expr
  | [] => []
  | x :: xs => x.mapTypes :: Expr.mapList xs

def Field.mapList : List Field → List Field
  | [] => []
  | x :: xs => x.mapTypes :: Field.mapList xs

def Stmt.mapList : List Stmt → List Stmt
  | [] => []
  | x :: xs => x.mapTypes :: Stmt.mapList xs

def CaseClause.mapList : List CaseClause → List CaseClause
  | [] => []
  | x :: xs => x.mapTypes :: CaseClause.mapList xs

def Spec.mapList : List Spec → List Spec
  | [] => []
  | x :: xs => x.mapTypes :: Spec.mapList xs

def Expr.mapOption : Option Expr → Option Expr
  | none => none
  | some x => some x.mapTypes

def Stmt.mapOption : Option Stmt → Option Stmt
  | none => none
  | some x => some x.mapTypes
end

def FuncDecl.mapTypes (decl : FuncDecl) : FuncDecl where
  receiver := decl.receiver.map (List.map (Field.mapTypes r))
  name := decl.name
  signature := decl.signature.mapTypes r
  body := decl.body.map (Block.mapTypes r)

def Decl.mapTypes : Decl → Decl
  | .func decl => .func (decl.mapTypes r)
  | .gen decl => .gen (decl.mapTypes r)

def SourceFile.mapTypes (file : SourceFile) : SourceFile :=
  { file with decls := file.decls.map (Decl.mapTypes r) }

def Node.mapTypes : Node → Node
  | .file f => .file (f.mapTypes r)
  | .decl d => .decl (d.mapTypes r)
  | .funcDecl d => .funcDecl (d.mapTypes r)
  | .genDecl d => .genDecl (d.mapTypes r)
  | .spec s => .spec (s.mapTypes r)
  | .funcType signature => .funcType (signature.mapTypes r)
  | .field f => .field (f.mapTypes r)
  | .block b => .block (b.mapTypes r)
  | .stmt s => .stmt (s.mapTypes r)
  | .caseClause clause => .caseClause (clause.mapTypes r)
  | .expr e => .expr (e.mapTypes r)
  | .ident i => .ident i

end Trees

/-- The handle of a type of an arena in its new order; other handles stay. -/
def TypeId.permuted {n : Nat} (σ : Equiv.Perm (Fin n)) (id : TypeId) : TypeId :=
  if h : id.index < n then ⟨σ ⟨id.index, h⟩⟩ else id

/-- A program with its types in another order. -/
def Program.renumbered (p : Program) (σ : Equiv.Perm (Fin p.types.size)) : Program :=
  { p with
    types := .ofFn fun i => (p.types[σ.symm i]).mapTypes (.permuted σ)
    objects := p.objects.map (Object.mapTypes (.permuted σ))
    files := p.files.map (SourceFile.mapTypes (.permuted σ)) }

/-- One program is the other one with its types under new handles. -/
structure Program.Renames (r : TypeId → TypeId) (p p' : Program) : Prop where
  injective : Function.Injective r
  surjective : Function.Surjective r
  inside : ∀ id, (r id).index < p.types.size ↔ id.index < p.types.size
  size : p'.types.size = p.types.size
  form : ∀ id, p'.form (r id) = (p.form id).mapTypes r
  package : p'.package = p.package
  packages : p'.packages = p.packages
  objects : p'.objects = p.objects.map (Object.mapTypes r)
  files : p'.files = p.files.map (SourceFile.mapTypes r)

theorem TypeId.permuted_lt {n : Nat} (σ : Equiv.Perm (Fin n)) {id : TypeId} :
    (id.permuted σ).index < n ↔ id.index < n := by
  unfold permuted
  split <;> simp_all

theorem TypeId.permuted_symm {n : Nat} (σ : Equiv.Perm (Fin n)) (id : TypeId) :
    (id.permuted σ).permuted σ.symm = id := by
  by_cases h : id.index < n
  · have h' := (permuted_lt σ).mpr h
    simp [permuted, h]
  · simp [permuted, h]

theorem Program.renumbered_renames (p : Program) (σ : Equiv.Perm (Fin p.types.size)) :
    Renames (.permuted σ) p (p.renumbered σ) where
  injective := Function.LeftInverse.injective (TypeId.permuted_symm σ)
  surjective := fun id => ⟨id.permuted σ.symm, id.permuted_symm σ.symm⟩
  inside := fun _ => TypeId.permuted_lt σ
  size := by simp [renumbered]
  form := by
    intro id
    by_cases h : id.index < p.types.size
    · simp [Program.form_def, renumbered, TypeId.permuted, Array.getD, h]
    · simp [Program.form_def, renumbered, TypeId.permuted, Array.getD, h, TypeForm.mapTypes]
  package := rfl
  packages := rfl
  objects := rfl
  files := rfl

end LeastContext
