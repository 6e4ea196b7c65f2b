import LeastContext.Analysis.Collection
import LeastContext.Analysis.Marking
import LeastContext.Proofs.Lists
import LeastContext.Proofs.SyntaxParts
import Mathlib.Data.List.Forall2

namespace LeastContext

/-- What is put for the expressions of a tree of which only the head is looked at; likewise for
the other kinds of trees below. -/
def Expr.blank : Expr := ⟨.literal "", none⟩

def Block.blank : Block := ⟨[]⟩

def FuncType.blank : FuncType := ⟨[], []⟩

def Field.blank : Field := ⟨[], .blank⟩

def Stmt.blank : Stmt := .block .blank

def CaseClause.blank : CaseClause := ⟨[], []⟩

def Spec.blank : Spec := .importing none ""

def GenDecl.blank : GenDecl := ⟨.imports, []⟩

def FuncDecl.blank : FuncDecl := ⟨none, ⟨"", ⟨⟨0⟩, 0, 0⟩, none⟩, .blank, none⟩

/-- A form without what it holds: which form it is, its own words, and how much there is in each
of its places. -/
def ExprForm.head : ExprForm → ExprForm
  | .ident name => .ident name
  | .literal text => .literal text
  | .paren _ => .paren .blank
  | .selector _ member => .selector .blank member
  | .call _ args spread => .call .blank (args.map fun _ => .blank) spread
  | .conversion _ _ => .conversion .blank .blank
  | .typeAssert _ target => .typeAssert .blank (target.map fun _ => .blank)
  | .compositeLit type elements =>
    .compositeLit (type.map fun _ => .blank) (elements.map fun _ => .blank)
  | .keyValue _ _ => .keyValue .blank .blank
  | .funcLit _ _ => .funcLit .blank .blank
  | .unary operator _ => .unary operator .blank
  | .binary operator _ _ => .binary operator .blank .blank
  | .star _ => .star .blank
  | .index _ _ => .index .blank .blank
  | .sliceOf _ low high => .sliceOf .blank (low.map fun _ => .blank) (high.map fun _ => .blank)
  | .funcType _ => .funcType .blank
  | .interfaceType members => .interfaceType (members.map fun _ => .blank)
  | .structType fields => .structType (fields.map fun _ => .blank)
  | .arrayType length _ => .arrayType (length.map fun _ => .blank) .blank
  | .mapType _ _ => .mapType .blank .blank
  | .ellipsis _ => .ellipsis .blank

def Stmt.head : Stmt → Stmt
  | .expr _ => .expr .blank
  | .decl _ => .decl .blank
  | .assign targets values define =>
    .assign (targets.map fun _ => .blank) (values.map fun _ => .blank) define
  | .incDec _ => .incDec .blank
  | .returning results => .returning (results.map fun _ => .blank)
  | .block _ => .block .blank
  | .ifThen init _ _ otherwise =>
    .ifThen (init.map fun _ => .blank) .blank .blank (otherwise.map fun _ => .blank)
  | .forLoop init condition post _ =>
    .forLoop (init.map fun _ => .blank) (condition.map fun _ => .blank) (post.map fun _ => .blank)
      .blank
  | .range key value _ _ =>
    .range (key.map fun _ => .blank) (value.map fun _ => .blank) .blank .blank
  | .switch init tag clauses =>
    .switch (init.map fun _ => .blank) (tag.map fun _ => .blank) (clauses.map fun _ => .blank)
  | .typeSwitch init _ clauses =>
    .typeSwitch (init.map fun _ => .blank) .blank (clauses.map fun _ => .blank)
  | .go _ => .go .blank
  | .defer _ => .defer .blank
  | .branch keyword => .branch keyword

def Spec.head : Spec → Spec
  | .importing name path => .importing name path
  | .value names written values =>
    .value names (written.map fun _ => .blank) (values.map fun _ => .blank)
  | .type name _ => .type name .blank

def Decl.head : Decl → Decl
  | .func _ => .func .blank
  | .gen _ => .gen .blank

namespace Node

/-- A node without what it holds. -/
def head : Node → Node
  | .file f => .file { f with decls := f.decls.map fun _ => .gen .blank }
  | .decl d => .decl d.head
  | .funcDecl d =>
    .funcDecl ⟨d.receiver.map fun fields => fields.map fun _ => .blank, d.name, .blank,
      d.body.map fun _ => .blank⟩
  | .genDecl d => .genDecl ⟨d.kind, d.specs.map fun _ => .blank⟩
  | .spec s => .spec s.head
  | .funcType sig =>
    .funcType ⟨sig.params.map fun _ => .blank, sig.results.map fun _ => .blank⟩
  | .field f => .field ⟨f.names, .blank⟩
  | .block b => .block ⟨b.stmts.map fun _ => .blank⟩
  | .stmt s => .stmt s.head
  | .caseClause c => .caseClause ⟨c.cases.map fun _ => .blank, c.body.map fun _ => .blank⟩
  | .expr e => .expr ⟨e.form.head, e.type⟩
  | .ident name => .ident name

def callee? : Node → Option Expr
  | .expr ⟨.call callee _ _, _⟩ => some callee
  | _ => none

end Node

def ExprForm.isParen : ExprForm → Bool
  | .paren _ => true
  | _ => false

def ExprForm.isKeyValue : ExprForm → Bool
  | .keyValue _ _ => true
  | _ => false

def ExprForm.isSelector : ExprForm → Bool
  | .selector _ _ => true
  | _ => false

/-- Whether an expression can make a mark itself. -/
def ExprForm.isMarking : ExprForm → Bool
  | .call _ _ _ | .typeAssert _ (some _) | .compositeLit _ _ => true
  | _ => false

/-- The second tree is the first one with some expressions in parentheses. Callees that are
`fixed` get none around them. -/
inductive Node.Wrapped (fixed : Expr → Prop) : Node → Node → Prop where
  | paren {e e' : Expr} : e.form.isKeyValue = false → Wrapped fixed (.expr e) (.expr e') →
      Wrapped fixed (.expr e) (.expr ⟨.paren e', e.type⟩)
  | inside {n n' : Node} : n'.head = n.head → List.Forall₂ (Wrapped fixed) n.children n'.children →
      (∀ callee ∈ n.callee?, ∀ callee' ∈ n'.callee?, fixed callee →
        callee'.form.isParen = callee.form.isParen) →
      Wrapped fixed n n'

namespace Node

variable {fixed : Expr → Prop} {n n' : Node}

/-- Two trees with the same head, the parts of the first one wrapped. -/
structure Alike (fixed : Expr → Prop) (n n' : Node) : Prop where
  head : n'.head = n.head
  children : List.Forall₂ (Wrapped fixed) n.children n'.children
  callee : ∀ callee ∈ n.callee?, ∀ callee' ∈ n'.callee?, fixed callee →
    callee'.form.isParen = callee.form.isParen

/-- A wrapped tree is taken apart from the outside in. -/
@[elab_as_elim]
theorem Wrapped.induct {motive : Node → Node → Prop} (h : n.Wrapped fixed n')
    (paren : ∀ e e' : Expr, e.form.isKeyValue = false → (Node.expr e).Wrapped fixed (.expr e') →
      motive (.expr e) (.expr e') → motive (.expr e) (.expr ⟨.paren e', e.type⟩))
    (inside : ∀ n n' : Node, n.Alike fixed n' → List.Forall₂ motive n.children n'.children →
      motive n n') : motive n n' := by
  induction n' using treeInduction generalizing n with
  | step n' ih =>
    cases h with
    | @paren e e' hkey hinner =>
      exact paren e e' hkey hinner (ih _ List.mem_cons_self hinner)
    | inside hhead hchildren hcallee =>
      refine inside n n' ⟨hhead, hchildren, hcallee⟩ ?_
      refine List.forall₂_iff_zip.mpr ⟨hchildren.length_eq, ?_⟩
      intro child child' hmem
      exact ih child' (List.of_mem_zip hmem).2 (List.forall₂_zip hchildren hmem)

theorem Wrapped.refl (n : Node) : n.Wrapped fixed n := by
  induction n using treeInduction with
  | step n ih =>
    refine .inside rfl (List.forall₂_same.mpr ih) ?_
    intro callee hcallee callee' hcallee' _
    rw [Option.mem_unique hcallee hcallee']

/-- Only an expression can be in parentheses of its own. -/
theorem Wrapped.alike (h : n.Wrapped fixed n') (hn : ∀ e, n ≠ .expr e) : n.Alike fixed n' := by
  cases h with
  | paren _ _ => exact absurd rfl (hn _)
  | inside hhead hchildren hcallee => exact ⟨hhead, hchildren, hcallee⟩

/-- What a walk gathers is the same for a wrapped tree if new parentheses are entered and give
nothing, and nodes with the same head are both entered and give the same. -/
theorem Wrapped.flatMap_walk {β : Type} {enter : Node → Bool} {own own' : Node → List β}
    (entered : ∀ e type, enter (.expr ⟨.paren e, type⟩) = true)
    (silent : ∀ e type, own' (.expr ⟨.paren e, type⟩) = [])
    (headed : ∀ n n' : Node, n'.head = n.head → enter n' = enter n)
    (same : ∀ n n' : Node, n.Alike fixed n' → own' n' = own n) (h : n.Wrapped fixed n') :
    (n'.walk enter).flatMap own' = (n.walk enter).flatMap own := by
  refine h.induct ?_ ?_
  · intro e e' _ _ ih
    rw [walk_eq, if_pos (entered _ _), List.flatMap_cons, silent]
    simpa [children, ExprForm.children] using ih
  · intro n n' halike ih
    rw [walk_eq enter n, walk_eq enter n', headed n n' halike.head, List.flatMap_cons,
      List.flatMap_cons, same n n' halike]
    split
    · rw [List.flatMap_assoc, List.flatMap_assoc, flatMap_eq_of_forall₂ ih]
    · rfl

theorem Alike.expr {e : Expr} (h : (Node.expr e).Alike fixed n') :
    ∃ e', n' = .expr e' ∧ e'.type = e.type ∧ e'.form.head = e.form.head := by
  have hhead := h.head
  cases n' <;> simp_all [Node.head]

theorem Wrapped.expr {e : Expr} (h : (Node.expr e).Wrapped fixed n') :
    ∃ e', n' = .expr e' ∧ e'.type = e.type := by
  cases h with
  | paren _ _ => exact ⟨_, rfl, rfl⟩
  | inside hhead hchildren hcallee =>
    obtain ⟨e', rfl, htype, _⟩ := Alike.expr ⟨hhead, hchildren, hcallee⟩
    exact ⟨e', rfl, htype⟩

theorem Wrapped.type_eq {e e' : Expr} (h : (Node.expr e).Wrapped fixed (.expr e')) :
    e'.type = e.type := by
  obtain ⟨_, ⟨⟩, htype⟩ := h.expr
  exact htype

theorem Alike.paren {inner : Expr} {type : Option TypeId} {e' : Expr}
    (h : (Node.expr ⟨.paren inner, type⟩).Alike fixed (.expr e')) :
    ∃ inner', e' = ⟨.paren inner', type⟩ ∧ (Node.expr inner).Wrapped fixed (.expr inner') := by
  obtain ⟨form', type'⟩ := e'
  have hhead := h.head
  have hchildren := h.children
  cases form' <;> simp_all [Node.head, ExprForm.head, Node.children, ExprForm.children]

theorem Alike.selector {operand : Expr} {member : Ident} {type : Option TypeId} {e' : Expr}
    (h : (Node.expr ⟨.selector operand member, type⟩).Alike fixed (.expr e')) :
    ∃ operand', e' = ⟨.selector operand' member, type⟩ ∧
      (Node.expr operand).Wrapped fixed (.expr operand') := by
  obtain ⟨form', type'⟩ := e'
  have hhead := h.head
  have hchildren := h.children
  cases form' <;> simp_all [Node.head, ExprForm.head, Node.children, ExprForm.children]

theorem Alike.call {callee : Expr} {args : List Expr} {spread : Bool} {type : Option TypeId}
    {e' : Expr} (h : (Node.expr ⟨.call callee args spread, type⟩).Alike fixed (.expr e')) :
    ∃ callee' args', e' = ⟨.call callee' args' spread, type⟩ ∧
      (Node.expr callee).Wrapped fixed (.expr callee') ∧
      (fixed callee → callee'.form.isParen = callee.form.isParen) ∧
      List.Forall₂ (fun a a' => (Node.expr a).Wrapped fixed (.expr a')) args args' := by
  obtain ⟨form', type'⟩ := e'
  have hhead := h.head
  have hchildren := h.children
  have hcallee := h.callee
  cases form' <;> simp_all [Node.head, ExprForm.head, Node.children, ExprForm.children,
    Node.callee?]

theorem Alike.typeAssert {operand target : Expr} {type : Option TypeId} {e' : Expr}
    (h : (Node.expr ⟨.typeAssert operand (some target), type⟩).Alike fixed (.expr e')) :
    ∃ operand' target', e' = ⟨.typeAssert operand' (some target'), type⟩ ∧
      (Node.expr operand).Wrapped fixed (.expr operand') ∧
      (Node.expr target).Wrapped fixed (.expr target') := by
  obtain ⟨form', type'⟩ := e'
  have hhead := h.head
  have hchildren := h.children
  cases form' with
  | typeAssert operand' target' => cases target' <;>
    simp_all [Node.head, ExprForm.head, Node.children, ExprForm.children]
  | _ => simp_all [Node.head, ExprForm.head]

theorem Alike.keyValue {key value : Expr} {type : Option TypeId} {e' : Expr}
    (h : (Node.expr ⟨.keyValue key value, type⟩).Alike fixed (.expr e')) :
    ∃ key' value', e' = ⟨.keyValue key' value', type⟩ ∧
      (Node.expr key).Wrapped fixed (.expr key') ∧
      (Node.expr value).Wrapped fixed (.expr value') := by
  obtain ⟨form', type'⟩ := e'
  have hhead := h.head
  have hchildren := h.children
  cases form' <;> simp_all [Node.head, ExprForm.head, Node.children, ExprForm.children]

theorem Alike.compositeLit {written : Option Expr} {elements : List Expr} {type : Option TypeId}
    {e' : Expr} (h : (Node.expr ⟨.compositeLit written elements, type⟩).Alike fixed (.expr e')) :
    ∃ written' elements', e' = ⟨.compositeLit written' elements', type⟩ ∧
      List.Forall₂ (fun a a' => (Node.expr a).Wrapped fixed (.expr a')) elements elements' := by
  obtain ⟨form', type'⟩ := e'
  have hhead := h.head
  have hchildren := h.children
  cases form' with
  | compositeLit written' elements' =>
    simp only [Node.head, ExprForm.head, Node.expr.injEq, Expr.mk.injEq,
      ExprForm.compositeLit.injEq] at hhead
    obtain ⟨⟨hwritten, _⟩, rfl⟩ := hhead
    have hlength :
        (written.toList.map Node.expr).length = (written'.toList.map Node.expr).length := by
      cases written <;> cases written' <;> simp_all
    refine ⟨written', elements', rfl, ?_⟩
    simpa using (forall₂_of_append hlength hchildren).2
  | _ => simp_all [Node.head, ExprForm.head]

theorem Alike.field {f : Field} (h : (Node.field f).Alike fixed n') :
    ∃ f', n' = .field f' ∧ f'.names = f.names ∧
      (Node.expr f.type).Wrapped fixed (.expr f'.type) := by
  have hhead := h.head
  have hchildren := h.children
  cases n' with
  | field f' =>
    simp only [Node.head, Node.field.injEq, Field.mk.injEq, and_true] at hhead
    refine ⟨f', rfl, hhead, ?_⟩
    rw [Node.children, Node.children, hhead] at hchildren
    simpa using (forall₂_of_append rfl hchildren).2
  | _ => simp [Node.head] at hhead

theorem Alike.funcType {sig : FuncType} (h : (Node.funcType sig).Alike fixed n') :
    ∃ sig', n' = .funcType sig' ∧
      List.Forall₂ (fun f f' => (Node.field f).Wrapped fixed (.field f'))
        sig.params sig'.params := by
  have hhead := h.head
  have hchildren := h.children
  cases n' with
  | funcType sig' =>
    simp only [Node.head, Node.funcType.injEq, FuncType.mk.injEq] at hhead
    have hlength : (sig.params.map Node.field).length = (sig'.params.map Node.field).length := by
      simpa using (congrArg List.length hhead.1).symm
    refine ⟨sig', rfl, ?_⟩
    simpa using (forall₂_of_append hlength hchildren).1
  | _ => simp [Node.head] at hhead

theorem Alike.decl {d : Decl} (h : (Node.decl d).Alike fixed n') :
    (∃ f f', d = .func f ∧ n' = .decl (.func f') ∧ (Node.funcDecl f).Wrapped fixed (.funcDecl f')) ∨
      ∃ g g', d = .gen g ∧ n' = .decl (.gen g') := by
  have hhead := h.head
  have hchildren := h.children
  cases n' with
  | decl d' =>
    cases d <;> cases d' <;> simp_all [Node.head, Decl.head, Node.children]
  | _ => simp [Node.head] at hhead

theorem Alike.file {f : SourceFile} (h : (Node.file f).Alike fixed n') :
    ∃ f', n' = .file f' ∧ f'.id = f.id ∧ f'.name = f.name ∧
      List.Forall₂ (fun d d' => (Node.decl d).Wrapped fixed (.decl d')) f.decls f'.decls := by
  have hhead := h.head
  have hchildren := h.children
  cases n' <;> simp_all [Node.head, Node.children]

theorem Alike.funcDecl {d : FuncDecl} (h : (Node.funcDecl d).Alike fixed n') :
    ∃ d', n' = .funcDecl d' ∧ d'.name = d.name ∧
      Option.Rel (List.Forall₂ fun f f' => (Node.field f).Wrapped fixed (.field f'))
        d.receiver d'.receiver ∧
      (Node.funcType d.signature).Wrapped fixed (.funcType d'.signature) := by
  have hhead := h.head
  have hchildren := h.children
  cases n' with
  | funcDecl d' =>
    obtain ⟨receiver, name, signature, body⟩ := d
    obtain ⟨receiver', name', signature', body'⟩ := d'
    simp only [Node.head, Node.funcDecl.injEq, FuncDecl.mk.injEq, true_and] at hhead
    obtain ⟨hreceiver, hname, _⟩ := hhead
    have hlength : ((receiver.getD []).map Node.field).length =
        ((receiver'.getD []).map Node.field).length := by
      cases receiver <;> cases receiver' <;> simp_all
    rw [Node.children, Node.children, List.append_assoc, List.append_assoc] at hchildren
    obtain ⟨hfields, hrest⟩ := forall₂_of_append hlength hchildren
    refine ⟨_, rfl, hname, ?_, ?_⟩
    · cases receiver <;> cases receiver' <;> simp_all
    · simp_all
  | _ => simp [Node.head] at hhead

end Node

namespace ExprForm

theorem isParen_head (form : ExprForm) : form.head.isParen = form.isParen := by
  cases form <;> rfl

theorem isKeyValue_head (form : ExprForm) : form.head.isKeyValue = form.isKeyValue := by
  cases form <;> rfl

theorem isSelector_head (form : ExprForm) : form.head.isSelector = form.isSelector := by
  cases form <;> rfl

theorem isMarking_head (form : ExprForm) : form.head.isMarking = form.isMarking := by
  cases form with
  | typeAssert _ target => cases target <;> rfl
  | _ => rfl

theorem ident?_head {form : ExprForm} (h : form.isParen = false) :
    form.head.ident? = form.ident? := by
  cases form <;> simp_all [head, ident?, isParen]

theorem calleeObject?_head {form : ExprForm} (h : form.isParen = false) :
    form.head.calleeObject? = form.calleeObject? := by
  cases form <;> simp_all [head, calleeObject?, isParen]

end ExprForm

namespace Node

/-- What looks through parentheses, and else only at the head of a form, is the same for a wrapped
expression. -/
theorem Wrapped.through {γ : Type} {f : ExprForm → γ} (hparen : ∀ e, f (.paren e) = f e.form)
    (hhead : ∀ form, form.isParen = false → f form.head = f form) {e e' : Expr}
    (h : (Node.expr e).Wrapped fixed (.expr e')) : f e'.form = f e.form := by
  suffices all : ∀ n n', Wrapped fixed n n' → ∀ e e', n = .expr e → n' = .expr e' →
      f e'.form = f e.form from all _ _ h _ _ rfl rfl
  intro n n' h
  refine h.induct ?_ ?_
  · rintro e e' _ _ ih _ _ ⟨⟩ ⟨⟩
    rw [hparen]
    exact ih e e' rfl rfl
  · rintro _ _ halike ih e e' rfl rfl
    obtain ⟨_, ⟨⟩, _, hform⟩ := halike.expr
    cases hp : e.form.isParen with
    | false =>
      have hp' : e'.form.isParen = false := by
        rw [← ExprForm.isParen_head, hform, ExprForm.isParen_head, hp]
      rw [← hhead _ hp, ← hhead _ hp', hform]
    | true =>
      obtain ⟨form, type⟩ := e
      cases form with
      | paren inner =>
        obtain ⟨inner', rfl, _⟩ := halike.paren
        rw [hparen, hparen]
        simp only [children, ExprForm.children, List.forall₂_cons, List.Forall₂.nil, and_true] at ih
        exact ih _ _ rfl rfl
      | _ => cases hp

theorem Wrapped.variable? {e e' : Expr} (h : (Node.expr e).Wrapped fixed (.expr e')) :
    e'.variable? = e.variable? := by
  have hident : e'.form.ident? = e.form.ident? :=
    h.through (fun e => by cases e; rfl) fun _ => ExprForm.ident?_head
  cases e
  cases e'
  simp_all [Expr.ident?, Expr.variable?]

theorem Wrapped.calleeObject? {e e' : Expr} (h : (Node.expr e).Wrapped fixed (.expr e')) :
    e'.calleeObject? = e.calleeObject? := by
  have hobject : e'.form.calleeObject? = e.form.calleeObject? :=
    h.through (fun e => by cases e; rfl) fun _ => ExprForm.calleeObject?_head
  cases e
  cases e'
  exact hobject

end Node

end LeastContext
