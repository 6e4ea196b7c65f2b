import LeastContext.Analysis.Marking
import LeastContext.Analysis.Pooling
import LeastContext.Proofs.Lists
import LeastContext.Proofs.Renumbering.Verdicts

namespace LeastContext

section Parts

variable (r : TypeId → TypeId)

@[simp]
theorem Expr.mapList_eq (xs : List Expr) : Expr.mapList r xs = xs.map (Expr.mapTypes r) := by
  induction xs with
  | nil => rfl
  | cons x xs ih => rw [Expr.mapList, ih, List.map_cons]

@[simp]
theorem Field.mapList_eq (xs : List Field) : Field.mapList r xs = xs.map (Field.mapTypes r) := by
  induction xs with
  | nil => rfl
  | cons x xs ih => rw [Field.mapList, ih, List.map_cons]

@[simp]
theorem Stmt.mapList_eq (xs : List Stmt) : Stmt.mapList r xs = xs.map (Stmt.mapTypes r) := by
  induction xs with
  | nil => rfl
  | cons x xs ih => rw [Stmt.mapList, ih, List.map_cons]

@[simp]
theorem CaseClause.mapList_eq (xs : List CaseClause) :
    CaseClause.mapList r xs = xs.map (CaseClause.mapTypes r) := by
  induction xs with
  | nil => rfl
  | cons x xs ih => rw [CaseClause.mapList, ih, List.map_cons]

@[simp]
theorem Spec.mapList_eq (xs : List Spec) : Spec.mapList r xs = xs.map (Spec.mapTypes r) := by
  induction xs with
  | nil => rfl
  | cons x xs ih => rw [Spec.mapList, ih, List.map_cons]

@[simp]
theorem Expr.mapOption_eq (x : Option Expr) : Expr.mapOption r x = x.map (Expr.mapTypes r) := by
  cases x <;> rfl

@[simp]
theorem Stmt.mapOption_eq (x : Option Stmt) : Stmt.mapOption r x = x.map (Stmt.mapTypes r) := by
  cases x <;> rfl

@[simp]
theorem Expr.type_mapTypes (e : Expr) : (e.mapTypes r).type = e.type.map r := by
  cases e
  rfl

theorem Expr.form_mapTypes (e : Expr) : (e.mapTypes r).form = e.form.mapTypes r := by
  cases e
  rfl

/-- The parts of a tree under new handles are those of the tree. -/
theorem Node.children_mapTypes (node : Node) :
    (node.mapTypes r).children = node.children.map (Node.mapTypes r) := by
  cases node with
  | file f => simp [mapTypes, children, SourceFile.mapTypes, Function.comp_def]
  | decl d => cases d <;> rfl
  | funcDecl d =>
    obtain ⟨receiver, name, signature, body⟩ := d
    cases receiver <;>
      simp [mapTypes, children, FuncDecl.mapTypes, Function.comp_def, Option.toList_map]
  | genDecl d => cases d; simp [mapTypes, children, GenDecl.mapTypes, Function.comp_def]
  | spec s =>
    cases s <;>
      simp [mapTypes, children, Spec.mapTypes, Spec.children, Function.comp_def, Option.toList_map]
  | funcType signature =>
    cases signature
    simp [mapTypes, children, FuncType.mapTypes, Function.comp_def]
  | field f => cases f; simp [mapTypes, children, Field.mapTypes, Function.comp_def]
  | block b => cases b; simp [mapTypes, children, Block.mapTypes, Function.comp_def]
  | stmt s =>
    cases s <;>
      simp [mapTypes, children, Stmt.mapTypes, Stmt.children, Function.comp_def, Option.toList_map]
  | caseClause clause =>
    cases clause
    simp [mapTypes, children, CaseClause.mapTypes, Function.comp_def]
  | expr e =>
    obtain ⟨form, type⟩ := e
    cases form <;>
      simp [mapTypes, children, Expr.mapTypes, ExprForm.mapTypes, ExprForm.children,
        Function.comp_def, Option.toList_map]
  | ident i => rfl

theorem Node.walk_mapTypes {enter : Node → Bool}
    (same : ∀ node : Node, enter (node.mapTypes r) = enter node) (node : Node) :
    (node.mapTypes r).walk enter = (node.walk enter).map (Node.mapTypes r) := by
  induction node using Node.treeInduction with
  | step node ih =>
    rw [walk_eq, walk_eq enter node, same, children_mapTypes]
    split
    · rw [List.map_cons, List.flatMap_map, List.map_flatMap]
      congr 1
      exact List.flatMap_congr ih
    · rfl

theorem Node.isSearched_mapTypes (node : Node) :
    (node.mapTypes r).isSearched = node.isSearched := by
  cases node with
  | genDecl d => cases d; rfl
  | expr e =>
    obtain ⟨form, type⟩ := e
    cases form <;> rfl
  | _ => rfl

theorem Expr.ident?_mapTypes (e : Expr) : (e.mapTypes r).ident? = e.ident? := by
  obtain ⟨form, type⟩ := e
  cases form with
  | paren inner => exact Expr.ident?_mapTypes inner
  | _ => rfl

theorem Expr.calleeObject?_mapTypes (e : Expr) :
    (e.mapTypes r).calleeObject? = e.calleeObject? := by
  obtain ⟨form, type⟩ := e
  cases form with
  | paren inner => exact Expr.calleeObject?_mapTypes inner
  | _ => rfl

def Mark.mapTypes : Mark → Mark
  | .interface object type => .interface object (r type)
  | mark => mark

theorem Expr.marksAs_mapTypes (value : Expr) (type : TypeId) :
    (value.mapTypes r).marksAs (r type) = (value.marksAs type).map (Mark.mapTypes r) := by
  unfold Expr.marksAs Expr.variable?
  rw [Expr.ident?_mapTypes, List.map_map]
  rfl

theorem Expr.receiverMarks_mapTypes (callee : Expr) :
    (callee.mapTypes r).receiverMarks = callee.receiverMarks.map (Mark.mapTypes r) := by
  obtain ⟨form, type⟩ := callee
  cases form with
  | selector operand member =>
    simp only [Expr.receiverMarks, Expr.mapTypes, ExprForm.mapTypes, Expr.variable?,
      Expr.ident?_mapTypes, List.map_map]
    rfl
  | _ => rfl

theorem Program.elementMarks_mapTypes (fields : List StructField) (elements : List Expr) :
    Program.elementMarks (fields.map (StructField.mapTypes r)) (elements.map (Expr.mapTypes r)) =
      (Program.elementMarks fields elements).map (Mark.mapTypes r) := by
  apply flatten_mapIdx
  intro i element
  simp only [Expr.form_mapTypes, List.getElem?_map]
  cases element.form with
  | keyValue key value =>
    simp only [ExprForm.mapTypes, Expr.type_mapTypes]
    cases key.type with
    | none => rfl
    | some type => exact value.marksAs_mapTypes r type
  | _ =>
    cases fields[i]? with
    | none => rfl
    | some field => exact element.marksAs_mapTypes r field.type

end Parts

namespace Program.Renames

variable {r : TypeId → TypeId} {p p' : Program} (h : Renames r p p')
include h

theorem declaredObjects : p'.declaredObjects = p.declaredObjects := by
  unfold Program.declaredObjects
  rw [h.files, List.flatMap_map]
  congr 1
  funext file
  have hwalk : (Node.file (file.mapTypes r)).walk Node.isSearched = _ :=
    (Node.file file).walk_mapTypes r (Node.isSearched_mapTypes r)
  have hdefined : ∀ node : Node, (node.mapTypes r).defined? = node.defined? := by
    intro node
    cases node <;> rfl
  rw [hwalk, List.filterMap_map]
  simp [hdefined]

theorem collect (settings : Settings) : p'.collect settings = p.collect settings := by
  rw [Program.collect_def, Program.collect_def]
  rw [h.declaredObjects]
  congr 1
  apply List.filter_congr
  intro object _
  exact h.isTrackable settings object

theorem exprs : p'.exprs = p.exprs.map (Expr.mapTypes r) := by
  unfold Program.exprs
  rw [h.files, List.flatMap_map, List.map_flatMap]
  congr 1
  funext file
  have hwalk : (Node.file (file.mapTypes r)).walk (fun _ => true) = _ :=
    (Node.file file).walk_mapTypes r fun _ => rfl
  unfold Node.all
  rw [hwalk, List.filterMap_map, List.map_filterMap]
  congr 1
  funext node
  cases node <;> rfl

theorem receiverBase? (decl : FuncDecl) :
    p'.receiverBase? (decl.mapTypes r) = (p.receiverBase? decl).map r := by
  obtain ⟨receiver, name, signature, body⟩ := decl
  rw [Program.receiverBase?_def, Program.receiverBase?_def]
  rcases receiver with _ | (_ | ⟨⟨names, type⟩, fields⟩)
  · rfl
  · rfl
  · cases htype : type.type <;>
      simp [FuncDecl.mapTypes, Field.mapTypes, htype, h.unwrapPointers]

theorem methodDecls :
    p'.methodDecls = p.methodDecls.map (Prod.map r (FuncDecl.mapTypes r)) := by
  have hdecls : p'.decls = p.decls.map (Decl.mapTypes r) := by
    unfold Program.decls
    rw [h.files, List.flatMap_map, List.map_flatMap]
    rfl
  unfold Program.methodDecls
  rw [hdecls, List.filterMap_map, List.map_filterMap]
  congr 1
  funext decl
  cases decl with
  | func decl =>
    simp [Decl.mapTypes, Program.methodDecl?_func, h.receiverBase?, Function.comp_def]
  | gen decl => rfl

theorem addToGroup (base : TypeId) (decl : FuncDecl) (groups : List (TypeId × List FuncDecl)) :
    LeastContext.addToGroup (r base) (decl.mapTypes r)
        (groups.map (Prod.map r (List.map (FuncDecl.mapTypes r)))) =
      (LeastContext.addToGroup base decl groups).map
        (Prod.map r (List.map (FuncDecl.mapTypes r))) := by
  induction groups with
  | nil => rfl
  | cons group groups ih =>
    obtain ⟨key, decls⟩ := group
    simp only [List.map_cons, Prod.map, LeastContext.addToGroup, h.injective.eq_iff]
    split
    · simp
    · rw [List.map_cons, ← ih]
      rfl

theorem receivers :
    p'.receivers = p.receivers.map (Prod.map r (List.map (FuncDecl.mapTypes r))) := by
  have hgroups : ∀ (pairs : List (TypeId × FuncDecl)) (groups : List (TypeId × List FuncDecl)),
      (pairs.map (Prod.map r (FuncDecl.mapTypes r))).foldl
          (fun groups pair => LeastContext.addToGroup pair.1 pair.2 groups)
          (groups.map (Prod.map r (List.map (FuncDecl.mapTypes r)))) =
        (pairs.foldl (fun groups pair => LeastContext.addToGroup pair.1 pair.2 groups)
          groups).map (Prod.map r (List.map (FuncDecl.mapTypes r))) := by
    intro pairs
    induction pairs with
    | nil => exact fun _ => rfl
    | cons pair pairs ih =>
      intro groups
      simp only [List.map_cons, List.foldl_cons, Prod.map, h.addToGroup, ih]
  rw [Program.receivers_def, Program.receivers_def]
  rw [h.methodDecls]
  exact hgroups p.methodDecls []

theorem packageInterfaces : p'.packageInterfaces = p.packageInterfaces.map r := by
  rw [Program.packageInterfaces_def, Program.packageInterfaces_def]
  rw [h.objects, Array.toList_map, List.filterMap_map, List.map_filterMap, h.package]
  congr 1
  funext object
  have hkind : (object.mapTypes r).kind = .typeName ↔ object.kind = .typeName := by
    unfold Object.mapTypes ObjectKind.mapTypes
    cases object.kind <;> simp
  have hpackage : (object.mapTypes r).package = object.package := rfl
  have hfilter : ∀ type : Option TypeId,
      (type.map r).filter p'.isInterface = (type.filter p.isInterface).map r := by
    intro type
    cases type with
    | none => rfl
    | some type => cases hi : p.isInterface type <;> simp [Option.filter, h.isInterface, hi]
  simp only [Function.comp_apply, hkind, hpackage]
  by_cases hname : object.kind = .typeName ∧ object.package = some p.package
  · rw [if_pos hname, if_pos hname]
    exact hfilter object.type
  · rw [if_neg hname, if_neg hname]
    rfl

theorem pooledParam? (ledger : Ledger) (keys : List MethodKey) (decl : FuncDecl) :
    p'.pooledParam? ledger keys (decl.mapTypes r) = p.pooledParam? ledger keys decl := by
  have hkey : ∀ object, (p'.object object).methodKey = (p.object object).methodKey := by
    intro object
    rw [h.object]
    rfl
  have hfirst : (decl.mapTypes r).firstParam? = decl.firstParam? := by
    obtain ⟨receiver, name, ⟨params, results⟩, body⟩ := decl
    rcases params with _ | ⟨⟨names, type⟩, params⟩ <;> rfl
  rw [Program.pooledParam?_def, Program.pooledParam?_def]
  simp only [hkey, hfirst]
  rfl

theorem siblings (ledger : Ledger) (interface : TypeId) :
    p'.siblings ledger (r interface) = p.siblings ledger interface := by
  have hkeys : (p'.interfaceMethods (r interface)).map (·.key) =
      (p.interfaceMethods interface).map (·.key) := by
    rw [h.interfaceMethods, List.map_map]
    rfl
  rw [Program.siblings_def, Program.siblings_def]
  simp only [hkeys, h.receivers, List.filter_map, List.flatMap_map, Function.comp_def, Prod.map,
    h.pointerImplements, List.filterMap_map, h.pooledParam?]

theorem pool (ledger : Ledger) : p'.pool ledger = p.pool ledger := by
  have hstep : ∀ pool interface, p'.poolInterface pool (r interface) =
      p.poolInterface pool interface := by
    intro pool interface
    rw [Program.poolInterface_def, Program.poolInterface_def]
    rw [h.siblings]
  rw [Program.pool_def, Program.pool_def]
  rw [h.packageInterfaces, List.foldl_map]
  simp only [hstep]

theorem calleeSignature (callee : Expr) :
    p'.calleeSignature (callee.mapTypes r) =
      (p.calleeSignature callee).map (Option.map (Signature.mapTypes r)) := by
  have hbuiltin : ∀ object, (p'.object object).kind = .builtin ↔
      (p.object object).kind = .builtin := by
    intro object
    rw [h.object]
    unfold Object.mapTypes ObjectKind.mapTypes
    cases (p.object object).kind <;> simp
  rw [Program.calleeSignature_def, Program.calleeSignature_def]
  rw [Expr.type_mapTypes, Expr.calleeObject?_mapTypes]
  cases callee.type with
  | none =>
    simp only [Option.map_none, hbuiltin]
    split <;> rfl
  | some type =>
    simp only [Option.map_some, h.underlying, h.form, h.render, h.package]
    cases p.form (p.underlying type) <;> rfl

theorem argumentType? (sig : Signature) (spread : Bool) (i : Nat) :
    p'.argumentType? (sig.mapTypes r) spread i = (p.argumentType? sig spread i).map r := by
  rw [Program.argumentType?_def, Program.argumentType?_def]
  simp only [Signature.mapTypes, List.getLast?_map, List.length_map, List.getElem?_map]
  cases sig.params.getLast? with
  | none => rfl
  | some last =>
    simp only [Option.map_some, Param.mapTypes, h.sliceElem?]
    split
    · cases p.sliceElem? last.type <;> rfl
    · cases sig.params[i]? <;> rfl

theorem argumentMarks (sig : Signature) (spread : Bool) (args : List Expr) :
    p'.argumentMarks (sig.mapTypes r) spread (args.map (Expr.mapTypes r)) =
      (p.argumentMarks sig spread args).map (Mark.mapTypes r) := by
  rw [Program.argumentMarks_def, Program.argumentMarks_def]
  apply flatten_mapIdx
  intro i arg
  rw [h.argumentType?]
  cases p.argumentType? sig spread i with
  | none => rfl
  | some type => exact arg.marksAs_mapTypes r type

theorem firstParam? (type : TypeId) : p'.firstParam? (r type) = p.firstParam? type := by
  rw [Program.firstParam?_def, Program.firstParam?_def, h.form]
  cases p.form type with
  | signature sig =>
    obtain ⟨params, results, variadic⟩ := sig
    cases params <;> rfl
  | _ => rfl

theorem wrappedParam? (names : List String) (callee : Expr) (args : List Expr) :
    p'.wrappedParam? names (callee.mapTypes r) (args.map (Expr.mapTypes r)) =
      p.wrappedParam? names callee args := by
  have hargument : ((args.map (Expr.mapTypes r)).head?.bind (·.type)).bind p'.firstParam? =
      (args.head?.bind (·.type)).bind p.firstParam? := by
    cases args with
    | nil => rfl
    | cons arg args => cases htype : arg.type <;> simp [htype, h.firstParam?]
  rw [Program.wrappedParam?_def, Program.wrappedParam?_def]
  simp only [Expr.calleeObject?_mapTypes, h.qualifiedName?, hargument]

theorem callMarks (settings : Settings) (callee : Expr) (args : List Expr) (spread : Bool) :
    p'.callMarks settings (callee.mapTypes r) (args.map (Expr.mapTypes r)) spread =
      (p.callMarks settings callee args spread).map (List.map (Mark.mapTypes r)) := by
  rw [Program.callMarks_def, Program.callMarks_def]
  rw [h.calleeSignature, h.wrappedParam?, h.wrappedParam?, Expr.receiverMarks_mapTypes]
  have hfixed : ∀ (mark : ObjectId → Mark) (object : Option ObjectId),
      (∀ o, (mark o).mapTypes r = mark o) →
        (object.map mark).toList = (object.map mark).toList.map (Mark.mapTypes r) := by
    intro mark object hmark
    cases object <;> simp [hmark]
  have hcached :=
    hfixed .cached (p.wrappedParam? settings.memoizeFunctions callee args) fun _ => rfl
  have hdropped :=
    hfixed .dropped (p.wrappedParam? settings.keyParamFunctions callee args) fun _ => rfl
  rcases p.calleeSignature callee with breach | (_ | sig)
  · rfl
  · refine congrArg Except.ok ?_
    simp only [List.map_append, ← hcached, ← hdropped]
    rfl
  · refine congrArg Except.ok ?_
    simp only [List.map_append, ← hcached, ← hdropped, Option.map_some, h.argumentMarks]

theorem literalMarks (type : Option TypeId) (elements : List Expr) :
    p'.literalMarks (type.map r) (elements.map (Expr.mapTypes r)) =
      (p.literalMarks type elements).map (Mark.mapTypes r) := by
  rw [Program.literalMarks_def, Program.literalMarks_def]
  cases type with
  | none => rfl
  | some type =>
    simp only [Option.map_some, h.underlying, h.form]
    cases p.form (p.underlying type) with
    | struct fields => exact Program.elementMarks_mapTypes r fields elements
    | _ => rfl

theorem marks (settings : Settings) (e : Expr) :
    p'.marks settings (e.mapTypes r) = (p.marks settings e).map (List.map (Mark.mapTypes r)) := by
  obtain ⟨form, type⟩ := e
  cases form with
  | call callee args spread =>
    simp only [Program.marks_def, Expr.mapTypes, ExprForm.mapTypes, Expr.mapList_eq]
    exact h.callMarks settings callee args spread
  | compositeLit written elements =>
    simp only [Program.marks_def, Expr.mapTypes, ExprForm.mapTypes, Expr.mapList_eq, h.literalMarks]
    rfl
  | typeAssert operand target =>
    cases target with
    | none => rfl
    | some target =>
      simp only [Program.marks_def, Expr.mapTypes, ExprForm.mapTypes, Expr.mapOption_eq,
        Option.map_some, Expr.type_mapTypes]
      cases target.type with
      | none => rfl
      | some type => exact congrArg Except.ok (operand.marksAs_mapTypes r type)
  | _ => rfl

end Program.Renames

end LeastContext
