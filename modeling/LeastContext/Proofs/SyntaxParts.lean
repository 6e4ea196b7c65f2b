import LeastContext.Syntax.Node
import Mathlib.Logic.Relation

namespace LeastContext

inductive Spec.Part : Spec → Node → Prop where
  | importName {name path} : Part (.importing (some name) path) (.ident name)
  | valueName {names type values name} :
      name ∈ names → Part (.value names type values) (.ident name)
  | valueType {names type values} : Part (.value names (some type) values) (.expr type)
  | initializer {names type values value} :
      value ∈ values → Part (.value names type values) (.expr value)
  | typeName {name definition} : Part (.type name definition) (.ident name)
  | definition {name definition} : Part (.type name definition) (.expr definition)

inductive Stmt.Part : Stmt → Node → Prop where
  | expr {e} : Part (.expr e) (.expr e)
  | decl {d} : Part (.decl d) (.genDecl d)
  | assignTarget {targets values define target} :
      target ∈ targets → Part (.assign targets values define) (.expr target)
  | assignValue {targets values define value} :
      value ∈ values → Part (.assign targets values define) (.expr value)
  | incDec {operand} : Part (.incDec operand) (.expr operand)
  | result {results result} : result ∈ results → Part (.returning results) (.expr result)
  | block {b} : Part (.block b) (.block b)
  | ifInit {init condition body otherwise} :
      Part (.ifThen (some init) condition body otherwise) (.stmt init)
  | ifCondition {init condition body otherwise} :
      Part (.ifThen init condition body otherwise) (.expr condition)
  | ifBody {init condition body otherwise} :
      Part (.ifThen init condition body otherwise) (.block body)
  | otherwise {init condition body otherwise} :
      Part (.ifThen init condition body (some otherwise)) (.stmt otherwise)
  | forInit {init condition post body} :
      Part (.forLoop (some init) condition post body) (.stmt init)
  | forCondition {init condition post body} :
      Part (.forLoop init (some condition) post body) (.expr condition)
  | forPost {init condition post body} :
      Part (.forLoop init condition (some post) body) (.stmt post)
  | forBody {init condition post body} : Part (.forLoop init condition post body) (.block body)
  | rangeKey {key value operand body} : Part (.range (some key) value operand body) (.expr key)
  | rangeValue {key value operand body} : Part (.range key (some value) operand body) (.expr value)
  | rangeOperand {key value operand body} : Part (.range key value operand body) (.expr operand)
  | rangeBody {key value operand body} : Part (.range key value operand body) (.block body)
  | switchInit {init tag clauses} : Part (.switch (some init) tag clauses) (.stmt init)
  | switchTag {init tag clauses} : Part (.switch init (some tag) clauses) (.expr tag)
  | switchClause {init tag clauses clause} :
      clause ∈ clauses → Part (.switch init tag clauses) (.caseClause clause)
  | typeSwitchInit {init guard clauses} : Part (.typeSwitch (some init) guard clauses) (.stmt init)
  | typeSwitchGuard {init guard clauses} : Part (.typeSwitch init guard clauses) (.stmt guard)
  | typeSwitchClause {init guard clauses clause} :
      clause ∈ clauses → Part (.typeSwitch init guard clauses) (.caseClause clause)
  | go {call} : Part (.go call) (.expr call)
  | defer {call} : Part (.defer call) (.expr call)

inductive ExprForm.Part : ExprForm → Node → Prop where
  | ident {name} : Part (.ident name) (.ident name)
  | paren {inner} : Part (.paren inner) (.expr inner)
  | selectorOperand {operand member} : Part (.selector operand member) (.expr operand)
  | selectorMember {operand member} : Part (.selector operand member) (.ident member)
  | callee {callee args spread} : Part (.call callee args spread) (.expr callee)
  | argument {callee args spread arg} : arg ∈ args → Part (.call callee args spread) (.expr arg)
  | conversionTarget {target operand} : Part (.conversion target operand) (.expr target)
  | conversionOperand {target operand} : Part (.conversion target operand) (.expr operand)
  | assertOperand {operand target} : Part (.typeAssert operand target) (.expr operand)
  | assertTarget {operand target} : Part (.typeAssert operand (some target)) (.expr target)
  | literalType {type elements} : Part (.compositeLit (some type) elements) (.expr type)
  | element {type elements element} :
      element ∈ elements → Part (.compositeLit type elements) (.expr element)
  | key {key value} : Part (.keyValue key value) (.expr key)
  | value {key value} : Part (.keyValue key value) (.expr value)
  | funcLitSignature {signature body} : Part (.funcLit signature body) (.funcType signature)
  | funcLitBody {signature body} : Part (.funcLit signature body) (.block body)
  | unary {operator operand} : Part (.unary operator operand) (.expr operand)
  | left {operator left right} : Part (.binary operator left right) (.expr left)
  | right {operator left right} : Part (.binary operator left right) (.expr right)
  | star {operand} : Part (.star operand) (.expr operand)
  | indexOperand {operand position} : Part (.index operand position) (.expr operand)
  | indexPosition {operand position} : Part (.index operand position) (.expr position)
  | sliceOperand {operand low high} : Part (.sliceOf operand low high) (.expr operand)
  | sliceLow {operand low high} : Part (.sliceOf operand (some low) high) (.expr low)
  | sliceHigh {operand low high} : Part (.sliceOf operand low (some high)) (.expr high)
  | funcType {signature} : Part (.funcType signature) (.funcType signature)
  | member {members member} : member ∈ members → Part (.interfaceType members) (.field member)
  | structField {fields field} : field ∈ fields → Part (.structType fields) (.field field)
  | arrayLength {length elem} : Part (.arrayType (some length) elem) (.expr length)
  | arrayElem {length elem} : Part (.arrayType length elem) (.expr elem)
  | mapKey {key value} : Part (.mapType key value) (.expr key)
  | mapValue {key value} : Part (.mapType key value) (.expr value)
  | ellipsis {elem} : Part (.ellipsis elem) (.expr elem)

/-- A tree written directly inside another one. -/
inductive Node.Part : Node → Node → Prop where
  | decl {f : SourceFile} {d} : d ∈ f.decls → Part (.file f) (.decl d)
  | func {d} : Part (.decl (.func d)) (.funcDecl d)
  | gen {d} : Part (.decl (.gen d)) (.genDecl d)
  | receiver {d : FuncDecl} {fields field} :
      d.receiver = some fields → field ∈ fields → Part (.funcDecl d) (.field field)
  | funcName {d : FuncDecl} : Part (.funcDecl d) (.ident d.name)
  | signature {d : FuncDecl} : Part (.funcDecl d) (.funcType d.signature)
  | body {d : FuncDecl} {b} : d.body = some b → Part (.funcDecl d) (.block b)
  | specOf {d : GenDecl} {s} : s ∈ d.specs → Part (.genDecl d) (.spec s)
  | ofSpec {s : Spec} {n} : s.Part n → Part (.spec s) n
  | param {s : FuncType} {field} : field ∈ s.params → Part (.funcType s) (.field field)
  | result {s : FuncType} {field} : field ∈ s.results → Part (.funcType s) (.field field)
  | fieldName {f : Field} {name} : name ∈ f.names → Part (.field f) (.ident name)
  | fieldType {f : Field} : Part (.field f) (.expr f.type)
  | stmtOf {b : Block} {s} : s ∈ b.stmts → Part (.block b) (.stmt s)
  | ofStmt {s : Stmt} {n} : s.Part n → Part (.stmt s) n
  | caseOf {c : CaseClause} {e} : e ∈ c.cases → Part (.caseClause c) (.expr e)
  | caseStmt {c : CaseClause} {s} : s ∈ c.body → Part (.caseClause c) (.stmt s)
  | ofExpr {e : Expr} {n} : e.form.Part n → Part (.expr e) n

/-- The nodes of a tree in the order of a visit: each one before its children, which are visited
one after the other. -/
inductive Node.Preorder : Node → List Node → Prop where
  | visit {node : Node} {below : Node → List Node} :
      (∀ child ∈ node.children, Preorder child (below child)) →
        Preorder node (node :: node.children.flatMap below)

/-- Each rule of the grammar is one place in the list of children. -/
theorem Spec.mem_children {spec : Spec} {node : Node} : node ∈ spec.children ↔ spec.Part node := by
  constructor
  · intro h
    cases spec <;> simp [Spec.children] at h
    all_goals grind [Spec.Part]
  · intro h
    cases h <;> simp [Spec.children, *]

theorem Stmt.mem_children {stmt : Stmt} {node : Node} : node ∈ stmt.children ↔ stmt.Part node := by
  constructor
  · intro h
    cases stmt <;> simp [Stmt.children] at h
    all_goals grind [Stmt.Part]
  · intro h
    cases h <;> simp [Stmt.children, *]

theorem ExprForm.mem_children {form : ExprForm} {node : Node} :
    node ∈ form.children ↔ form.Part node := by
  constructor
  · intro h
    cases form <;> simp [ExprForm.children] at h
    all_goals grind [ExprForm.Part]
  · intro h
    cases h <;> simp [ExprForm.children, *]

namespace Node

/-- What holds of a node as soon as it holds of its children holds of every node. -/
@[elab_as_elim]
theorem treeInduction {motive : Node → Prop} (node : Node)
    (step : ∀ node : Node, (∀ child ∈ node.children, motive child) → motive node) :
    motive node := by
  apply step
  intro child hc
  exact treeInduction child step
termination_by sizeOf node
decreasing_by exact sizeOf_lt_of_mem_children hc

theorem mem_children {node part : Node} : part ∈ node.children ↔ node.Part part := by
  constructor
  · intro h
    cases node with
    | decl d => cases d <;> simp [children] at h <;> grind [Node.Part]
    | funcDecl d =>
      simp [children] at h
      cases hr : d.receiver <;> grind [Node.Part]
    | spec s => exact .ofSpec (Spec.mem_children.mp h)
    | stmt s => exact .ofStmt (Stmt.mem_children.mp h)
    | expr e => exact .ofExpr (ExprForm.mem_children.mp h)
    | ident i => cases h
    | _ => simp [children] at h; grind [Node.Part]
  · intro h
    cases h with
    | ofSpec h => exact Spec.mem_children.mpr h
    | ofStmt h => exact Stmt.mem_children.mpr h
    | ofExpr h => exact ExprForm.mem_children.mpr h
    | _ => simp [children, *]

theorem walk_eq (enter : Node → Bool) (node : Node) :
    node.walk enter = node :: if enter node then node.children.flatMap (walk enter) else [] := by
  rw [walk]
  congr 2
  conv => rhs; rw [← List.attach_map_subtype_val node.children, List.flatMap_map]

theorem all_eq (node : Node) : node.all = node :: node.children.flatMap all := by
  rw [all, walk_eq, if_pos rfl]
  rfl

theorem all_preorder (node : Node) : node.Preorder node.all := by
  rw [all_eq]
  refine .visit ?_
  intro child hc
  exact all_preorder child
termination_by sizeOf node
decreasing_by exact sizeOf_lt_of_mem_children hc

theorem part_of_mem_walk {enter : Node → Bool} {node part : Node} (h : part ∈ node.walk enter) :
    Relation.ReflTransGen Part node part := by
  rw [walk_eq] at h
  rcases List.mem_cons.mp h with rfl | h
  · exact .refl
  · split at h
    · obtain ⟨child, hc, hp⟩ := List.mem_flatMap.mp h
      exact .head (mem_children.mp hc) (part_of_mem_walk hp)
    · cases h
termination_by sizeOf node
decreasing_by exact sizeOf_lt_of_mem_children hc

/-- The walk over a whole tree meets its parts at any depth and nothing else. -/
theorem mem_all {node part : Node} : part ∈ node.all ↔ Relation.ReflTransGen Part node part := by
  refine ⟨part_of_mem_walk, ?_⟩
  intro h
  induction h using Relation.ReflTransGen.head_induction_on with
  | refl =>
    rw [all_eq]
    exact List.mem_cons_self
  | head hpart _ ih =>
    rw [all_eq]
    exact List.mem_cons_of_mem _ (List.mem_flatMap.mpr ⟨_, mem_children.mpr hpart, ih⟩)

end Node

end LeastContext
