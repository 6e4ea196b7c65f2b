import LeastContext.Draft.Sketch
import LeastContext.Proofs.SyntaxParts
import LeastContext.Program.Defect

namespace LeastContext

/-- The handles that occur in a tree, at any depth. -/
def Node.handles (node : Node) : List Reference :=
  node.all.flatMap fun part => part.references.map (·.2)

theorem Node.handles_eq (node : Node) :
    node.handles = node.references.map (·.2) ++ node.children.flatMap handles := by
  rw [handles, all_eq, List.flatMap_cons, List.flatMap_assoc]
  rfl

mutual
def ExprSketch.handles : ExprSketch → List Reference
  | .use object => [.object object]
  | .type type => [.type type]
  | .call callee args _ => callee.handles ++ ExprSketch.handlesOfAll args
  | .selector operand member => operand.handles ++ [.object member]
  | .methodCall receiver _ sig args =>
    receiver.handles ++ [.type sig] ++ ExprSketch.handlesOfAll args
  | .typeAssert operand target => operand.handles ++ [.type target]
  | .conversion target operand => .type target :: operand.handles
  | .compositeLit type elements => .type type :: ExprSketch.handlesOfAll elements
  | .keyValue _ type value => .type type :: value.handles
  | .funcLit params body => params.map .object ++ StmtSketch.handlesOfAll body
  | .literal _ type => [.type type]
  | .done expr => (Node.expr expr).handles

def ExprSketch.handlesOfAll : List ExprSketch → List Reference
  | [] => []
  | sketch :: sketches => sketch.handles ++ ExprSketch.handlesOfAll sketches

def StmtSketch.handles : StmtSketch → List Reference
  | .expr expr => expr.handles
  | .define object value => .object object :: value.handles
  | .done stmt => (Node.stmt stmt).handles

def StmtSketch.handlesOfAll : List StmtSketch → List Reference
  | [] => []
  | sketch :: sketches => sketch.handles ++ StmtSketch.handlesOfAll sketches
end

namespace Draft

def Answer.handles : Answer → List Reference
  | .nothing | .file _ => []
  | .package id => [.package id]
  | .type id => [.type id]
  | .object id => [.object id]
  | .ident name => (Node.ident name).handles
  | .expr e => (Node.expr e).handles
  | .stmt s => (Node.stmt s).handles

/-- Whether a step is one of the typed constructors, which make the nodes they add themselves. -/
def Step.isTyped : Step → Bool
  | .addType _ | .addObject _ | .pushDecl _ => false
  | _ => true

/-- The handles that a step is given. -/
def Step.handles : Step → List Reference
  | .home | .package _ _ | .file _ | .basic _ | .builtin _ => []
  | .addType form => form.references
  | .addObject object => object.references
  | .pushDecl decl => (Node.decl decl).handles
  | .pointer elem | .slice elem => [.type elem]
  | .signature params results _ => params.map .type ++ results.map .type
  | .boundSignature params results => params.map .object ++ results.map .type
  | .interface methods embeds => methods.map (fun method => .type method.2) ++ embeds.map .type
  | .struct fields embeds => fields.map (fun field => .type field.2) ++ embeds.map .type
  | .named pkg _ underlying => [.package pkg, .type underlying]
  | .namedInterface pkg _ methods embeds =>
    .package pkg :: (methods.map (fun method => .type method.2) ++ embeds.map .type)
  | .addMethod type _ sig _ => [.type type, .type sig]
  | .var _ type => [.type type]
  | .func pkg _ sig => [.package pkg, .type sig]
  | .typeDecl type => [.type type]
  | .funcDecl _ params results body =>
    params.map .object ++ results.map .type ++ StmtSketch.handlesOfAll body
  | .methodDecl type _ _ params results body =>
    .type type :: (params.map .object ++ results.map .type ++ StmtSketch.handlesOfAll body)
  | .defIdent object => [.object object]
  | .expr sketch => sketch.handles
  | .stmt sketch => sketch.handles

/-- Every handle that a step is given is in the answer of an earlier step. -/
def Traceable (steps : List Step) (answers : List Answer) : Prop :=
  ∀ i (h : i < steps.length), ∀ r ∈ (steps.get ⟨i, h⟩).handles,
    ∃ answer ∈ answers.take i, r ∈ answer.handles

end Draft

end LeastContext
