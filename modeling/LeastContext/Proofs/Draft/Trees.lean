import LeastContext.Proofs.Draft.Soundness

namespace LeastContext.Draft

section Nodes

variable {d : Draft}

theorem knows_ident {name : Ident} : d.Knows (.ident name) ↔
    ∀ id ∈ name.object?, d.program.resolves (.object id) = true := by
  rw [knows_iff]
  simp [Node.references, Node.children]

theorem knows_expr {form : ExprForm} {type : Option TypeId} : d.Knows (.expr ⟨form, type⟩) ↔
    (∀ id ∈ type, d.program.resolves (.type id) = true) ∧
      ∀ child ∈ form.children, d.Knows child := by
  rw [knows_iff]
  simp [Node.references, Node.children]

theorem knows_field {f : Field} : d.Knows (.field f) ↔
    (∀ name ∈ f.names, d.Knows (.ident name)) ∧ d.Knows (.expr f.type) := by
  rw [knows_iff]
  simp [Node.references, Node.children, or_imp, forall_and]

theorem knows_funcType {sig : FuncType} : d.Knows (.funcType sig) ↔
    (∀ f ∈ sig.params, d.Knows (.field f)) ∧ ∀ f ∈ sig.results, d.Knows (.field f) := by
  rw [knows_iff]
  simp [Node.references, Node.children, or_imp, forall_and]

theorem knows_block {b : Block} : d.Knows (.block b) ↔ ∀ s ∈ b.stmts, d.Knows (.stmt s) := by
  rw [knows_iff]
  simp [Node.references, Node.children]

theorem knows_plainIdent (name : String) : d.Knows (.ident (plainIdent name)) := by
  simp [knows_ident, plainIdent, Ident.object?]

theorem knows_defIdent {id : ObjectId} (h : d.program.resolves (.object id) = true) :
    d.Knows (.ident (d.defIdent id)) := by
  simpa [knows_ident, defIdent, Ident.object?, Binding.object] using h

theorem knows_useIdent {id : ObjectId} (h : d.program.resolves (.object id) = true) :
    d.Knows (.ident (d.useIdent id)) := by
  simpa [knows_ident, useIdent, Ident.object?, Binding.object] using h

theorem knows_nameless {e : Expr} : d.Knows (.field ⟨[], e⟩) ↔ d.Knows (.expr e) := by
  simp [knows_field]

theorem knows_typeReference (sound : d.Sound) (id : TypeId) (name : String) :
    d.Knows (.ident ⟨name, default, (d.typeName? id).map .uses⟩) := by
  rw [knows_ident]
  cases hname : d.typeName? id with
  | none => simp [Ident.object?]
  | some object => simpa [Ident.object?, Binding.object] using sound.typeName hname

section Writing

variable {write write' : TypeId → Expr} {id : TypeId}

/-- A signature is written out by nameless fields, one for each type it refers to. -/
theorem knows_writeSignature (part : ∀ type, .type type ∈ (d.program.form id).references →
      d.Knows (.expr (write type))) :
    d.Knows (.funcType (d.writeSignature write id)) := by
  unfold writeSignature
  cases hform : d.program.form id with
  | signature sig =>
    rw [hform] at part
    rw [knows_funcType]
    simp only [List.mem_map, forall_exists_index, and_imp, forall_apply_eq_imp_iff₂,
      knows_nameless]
    constructor
    · intro param hparam
      apply part
      simp only [TypeForm.references, List.mem_append, List.mem_flatMap]
      exact .inl ⟨param, hparam, List.mem_cons_self⟩
    · intro type htype
      apply part
      simp only [TypeForm.references, List.mem_append, List.mem_map]
      exact .inr ⟨type, htype, rfl⟩
  -- a method whose type is no signature is written as one without fields
  | _ => simp [knows_funcType]

/-- A type is written by the types it refers to, which are there as well. -/
theorem knows_writeType (sound : d.Sound) (h : d.program.resolves (.type id) = true)
    (part : ∀ whole type, .type type ∈ (d.program.form whole).references →
      d.Knows (.expr (write type))) : d.Knows (.expr (d.writeType write id)) := by
  rw [writeType, knows_expr]
  refine ⟨by simpa using h, ?_⟩
  have here := part id
  cases hform : d.program.form id with
  | basic name => simpa [ExprForm.children] using knows_typeReference sound id name
  | named decl => simpa [ExprForm.children] using knows_typeReference sound id decl.name
  | pointer elem | slice elem =>
    simpa [ExprForm.children] using here elem (by simp [hform, TypeForm.references])
  | array length elem =>
    have literal : d.Knows (.expr ⟨.literal "N", none⟩) := by
      simp [knows_expr, ExprForm.children]
    simpa [ExprForm.children, literal] using here elem (by simp [hform, TypeForm.references])
  | map key value =>
    have hkey := here key (by simp [hform, TypeForm.references])
    have hvalue := here value (by simp [hform, TypeForm.references])
    simpa [ExprForm.children] using ⟨hkey, hvalue⟩
  | signature sig =>
    simp only [ExprForm.children, List.mem_singleton, forall_eq]
    exact knows_writeSignature here
  | struct fields =>
    simp only [ExprForm.children, List.mem_map, forall_exists_index, and_imp,
      forall_apply_eq_imp_iff₂]
    intro field hfield
    refine knows_field.mpr ⟨?_, here _ ?_⟩
    · simp only
      split
      · simp
      · simp [knows_plainIdent]
    · simpa [hform, TypeForm.references] using ⟨field, hfield, rfl⟩
  | interface body =>
    simp only [ExprForm.children, List.map_append, List.map_map, List.mem_append, List.mem_map,
      Function.comp]
    intro child hchild
    rcases hchild with ⟨method, hmethod, rfl⟩ | ⟨embed, hembed, rfl⟩
    · have hsig : .type method.signature ∈ (d.program.form id).references := by
        simp only [hform, TypeForm.references]
        grind
      refine knows_field.mpr ⟨by simp [knows_plainIdent], knows_expr.mpr ⟨?_, ?_⟩⟩
      · simpa using sound.types id _ hsig
      · simpa [ExprForm.children] using knows_writeSignature (part method.signature)
    · exact knows_nameless.mpr (here embed (by simp [hform, TypeForm.references, hembed]))

theorem knows_typeExprWithin (sound : d.Sound) (depth : Nat)
    (h : d.program.resolves (.type id) = true) : d.Knows (.expr (d.typeExprWithin depth id)) := by
  induction depth generalizing id with
  | zero =>
    rw [typeExprWithin, knows_expr]
    simpa [ExprForm.children, knows_plainIdent] using h
  | succ depth ih =>
    refine knows_writeType sound h ?_
    intro whole type htype
    exact ih (sound.types whole _ htype)

theorem writeSignature_congr
    (same : ∀ type, .type type ∈ (d.program.form id).references → write type = write' type) :
    d.writeSignature write id = d.writeSignature write' id := by
  unfold writeSignature
  cases hform : d.program.form id with
  | signature sig =>
    simp only [hform, TypeForm.references, List.mem_append, List.mem_flatMap, List.mem_map] at same
    dsimp only
    congr 1
    · refine List.map_congr_left fun param hparam => ?_
      rw [same _ (.inl ⟨param, hparam, List.mem_cons_self⟩)]
    · refine List.map_congr_left fun type htype => ?_
      rw [same _ (.inr ⟨type, htype, rfl⟩)]
  | _ => rfl

/-- To write a type it is enough to write older ones. -/
theorem writeType_congr (sound : d.Sound)
    (same : ∀ type, type.index < id.index → write type = write' type) :
    d.writeType write id = d.writeType write' id := by
  have here : ∀ type, .type type ∈ (d.program.form id).references → write type = write' type :=
    fun type htype => same type (sound.older id type htype)
  unfold writeType
  cases hform : d.program.form id with
  | basic | named => rfl
  | pointer elem | slice elem | array _ elem =>
    simp only [here elem (by simp [hform, TypeForm.references])]
  | map key value =>
    simp only [here key (by simp [hform, TypeForm.references]),
      here value (by simp [hform, TypeForm.references])]
  | signature sig => simp only [writeSignature_congr here]
  | struct fields =>
    have hfields : ∀ field ∈ fields, write field.type = write' field.type :=
      fun field hfield => here _ (by simpa [hform, TypeForm.references] using ⟨field, hfield, rfl⟩)
    dsimp only
    congr 2
    refine List.map_congr_left fun field hfield => ?_
    rw [hfields field hfield]
  | interface body =>
    have hmethods : ∀ method ∈ body.methods,
        d.writeSignature write method.signature = d.writeSignature write' method.signature := by
      intro method hmethod
      have hsig : .type method.signature ∈ (d.program.form id).references := by
        simp only [hform, TypeForm.references]
        grind
      -- the signature is looked into as well, one level deeper than the other parts
      refine writeSignature_congr fun type htype => same type ?_
      exact Nat.lt_trans (sound.older _ type htype) (sound.older id _ hsig)
    have hembeds : ∀ embed ∈ body.embeds, write embed = write' embed :=
      fun embed hembed => here embed (by simp [hform, TypeForm.references, hembed])
    dsimp only
    congr 3
    · refine List.map_congr_left fun method hmethod => ?_
      rw [hmethods method hmethod]
    · refine List.map_congr_left fun embed hembed => ?_
      rw [hembeds embed hembed]

theorem typeExprWithin_eq (sound : d.Sound) {depth depth' : Nat} (h : id.index < depth)
    (h' : id.index < depth') : d.typeExprWithin depth id = d.typeExprWithin depth' id := by
  induction depth generalizing id depth' with
  | zero => cases h
  | succ depth ih =>
    obtain ⟨depth', rfl⟩ := Nat.exists_eq_succ_of_ne_zero (Nat.ne_zero_of_lt h')
    refine writeType_congr sound ?_
    intro type older
    exact ih (by omega) (by omega)

/-- Writing out a type never comes to its bound: it is writing every type of a draft out in full. -/
theorem typeExpr_eq (sound : d.Sound) (h : d.program.resolves (.type id) = true) :
    d.typeExpr id = d.writeType d.typeExpr id := by
  have there : id.index < d.program.types.size := by simpa [Program.resolves] using h
  refine writeType_congr sound ?_
  intro type older
  exact typeExprWithin_eq sound (by omega) (by omega)

end Writing

theorem knows_typeExpr (sound : d.Sound) {id : TypeId}
    (h : d.program.resolves (.type id) = true) : d.Knows (.expr (d.typeExpr id)) :=
  knows_typeExprWithin sound _ h

theorem knows_unnamedField (sound : d.Sound) {id : TypeId}
    (h : d.program.resolves (.type id) = true) : d.Knows (.field (d.unnamedField id)) :=
  knows_nameless.mpr (knows_typeExpr sound h)

theorem knows_useExpr (sound : d.Sound) {id : ObjectId}
    (h : d.program.resolves (.object id) = true) : d.Knows (.expr (d.useExpr id)) := by
  rw [useExpr, knows_expr]
  exact ⟨fun type htype => sound.objectType htype,
    by simpa [ExprForm.children] using knows_useIdent h⟩

/-- The result of a callee is a part of its signature. -/
theorem resultType_resolves (sound : d.Sound) {callee : Option TypeId} {type : TypeId}
    (htype : d.resultType? callee = some type) : d.program.resolves (.type type) = true := by
  obtain ⟨id, hid, hresult⟩ := Option.bind_eq_some_iff.mp htype
  split at hresult
  · rename_i sig hsig
    apply sound.types (d.program.underlying id)
    rw [hsig, TypeForm.references]
    exact List.mem_append_right _ (List.mem_map.mpr ⟨type, List.mem_of_head? hresult, rfl⟩)
  · cases hresult

theorem knows_call (sound : d.Sound) {callee : Expr} {args : List Expr}
    (hcallee : d.Knows (.expr callee)) (hargs : ∀ arg ∈ args, d.Knows (.expr arg))
    (spread : Bool) : d.Knows (.expr (d.call callee args spread)) := by
  rw [call, knows_expr]
  refine ⟨fun type htype => resultType_resolves sound htype, ?_⟩
  simpa [ExprForm.children] using ⟨hcallee, hargs⟩

theorem knows_selector (sound : d.Sound) {operand : Expr} {member : ObjectId}
    (hoperand : d.Knows (.expr operand)) (h : d.program.resolves (.object member) = true) :
    d.Knows (.expr (d.selector operand member)) := by
  rw [selector, knows_expr]
  refine ⟨fun type htype => sound.objectType htype, ?_⟩
  simpa [ExprForm.children] using ⟨hoperand, knows_useIdent h⟩

theorem knows_methodCall (sound : d.Sound) {receiver : Expr} {sig : TypeId} {args : List Expr}
    (hreceiver : d.Knows (.expr receiver)) (h : d.program.resolves (.type sig) = true)
    (hargs : ∀ arg ∈ args, d.Knows (.expr arg)) (name : String) :
    d.Knows (.expr (d.methodCall receiver name sig args)) := by
  refine knows_call sound (knows_expr.mpr ⟨by simpa using h, ?_⟩) hargs false
  simpa [ExprForm.children] using ⟨hreceiver, knows_plainIdent name⟩

theorem knows_typeAssert (sound : d.Sound) {operand : Expr} {target : TypeId}
    (hoperand : d.Knows (.expr operand)) (h : d.program.resolves (.type target) = true) :
    d.Knows (.expr (d.typeAssert operand target)) := by
  refine knows_expr.mpr ⟨by simpa using h, ?_⟩
  simpa [ExprForm.children] using ⟨hoperand, knows_typeExpr sound h⟩

theorem knows_conversion (sound : d.Sound) {target : TypeId} {operand : Expr}
    (h : d.program.resolves (.type target) = true) (hoperand : d.Knows (.expr operand)) :
    d.Knows (.expr (d.conversion target operand)) := by
  refine knows_expr.mpr ⟨by simpa using h, ?_⟩
  simpa [ExprForm.children] using ⟨knows_typeExpr sound h, hoperand⟩

theorem knows_compositeLit (sound : d.Sound) {type : TypeId} {elements : List Expr}
    (h : d.program.resolves (.type type) = true)
    (helements : ∀ e ∈ elements, d.Knows (.expr e)) :
    d.Knows (.expr (d.compositeLit type elements)) := by
  refine knows_expr.mpr ⟨by simpa using h, ?_⟩
  simpa [ExprForm.children] using ⟨knows_typeExpr sound h, helements⟩

theorem knows_keyValue {type : TypeId} {value : Expr}
    (h : d.program.resolves (.type type) = true) (hvalue : d.Knows (.expr value))
    (field : String) : d.Knows (.expr (keyValue field type value)) := by
  have hkey : d.Knows (.expr ⟨.ident (plainIdent field), some type⟩) :=
    knows_expr.mpr ⟨by simpa using h, by simpa [ExprForm.children] using knows_plainIdent field⟩
  refine knows_expr.mpr ⟨by simp, ?_⟩
  simpa [ExprForm.children] using ⟨hkey, hvalue⟩

theorem knows_literal {type : TypeId} (h : d.program.resolves (.type type) = true)
    (value : String) : d.Knows (.expr (literal value type)) :=
  knows_expr.mpr ⟨by simpa using h, by simp [ExprForm.children]⟩

theorem knows_exprStmt {e : Expr} (h : d.Knows (.expr e)) : d.Knows (.stmt (.expr e)) := by
  rw [knows_iff]
  simpa [Node.references, Node.children, Stmt.children] using h

theorem knows_define {object : ObjectId} {value : Expr}
    (h : d.program.resolves (.object object) = true) (hvalue : d.Knows (.expr value)) :
    d.Knows (.stmt (d.define object value)) := by
  have hspec : d.Knows (.spec (.value [d.defIdent object] none [value])) := by
    rw [knows_iff]
    simpa [Node.references, Node.children, Spec.children] using ⟨knows_defIdent h, hvalue⟩
  have hdecl : d.Knows (.genDecl ⟨.variables, [.value [d.defIdent object] none [value]]⟩) := by
    rw [knows_iff]
    simpa [Node.references, Node.children] using hspec
  rw [define, knows_iff]
  simpa [Node.references, Node.children, Stmt.children] using hdecl

theorem paramFields_advances (sound : d.Sound) {params : List ObjectId}
    (h : d.Resolves (params.map .object)) :
    d.Advances ((paramFields params).run d) fun fields =>
      fields.flatMap fun f => (Node.field f).handles := by
  rw [resolves_map] at h
  refine .mapM ?_ sound
  intro object hobject d₁ sound₁ grows₁
  refine .get (.bind (objectType_advances sound₁ object) ?_)
  intro type d₂ sound₂ grows₂ htype
  refine .get (.pure sound₂ (knows_field.mpr ⟨?_, ?_⟩))
  · simpa using grows₂.knows (knows_defIdent (grows₁ _ (h object hobject)))
  · exact knows_typeExpr sound₂ (htype _ (List.mem_singleton_self _))

theorem funcLit_advances (sound : d.Sound) {params : List ObjectId} {body : List Stmt}
    (h : d.Resolves (params.map .object)) (hbody : ∀ s ∈ body, d.Knows (.stmt s)) :
    d.Advances ((funcLit params body).run d) fun e => (Node.expr e).handles := by
  refine .bind (boundSignature_advances sound (by simpa using h)) ?_
  intro sig d₁ sound₁ grows₁ hsig
  refine .bind (paramFields_advances sound₁ (grows₁.resolves h)) ?_
  intro fields d₂ sound₂ grows₂ hfields
  have hsignature : d₂.Knows (.funcType ⟨fields, []⟩) :=
    knows_funcType.mpr ⟨resolves_flatMap.mp hfields, by simp⟩
  have hblock : d₂.Knows (.block ⟨body⟩) :=
    knows_block.mpr fun s hs => (grows₁.trans grows₂).knows (hbody s hs)
  refine .pure sound₂ (knows_expr.mpr ⟨?_, ?_⟩)
  · simpa using grows₂ _ (hsig _ (List.mem_singleton_self _))
  · simpa [ExprForm.children] using ⟨hsignature, hblock⟩

end Nodes

mutual
/-- Drawing a sketch makes a tree of the handles in the sketch. -/
theorem exprSketch_advances {d : Draft} (sound : d.Sound) (sketch : ExprSketch)
    (h : d.Resolves sketch.handles) :
    d.Advances (sketch.draw.run d) fun e => (Node.expr e).handles := by
  cases sketch with
  | use object =>
    rw [ExprSketch.draw]
    exact .get (.pure sound (knows_useExpr sound (h _ (by simp [ExprSketch.handles]))))
  | type type =>
    rw [ExprSketch.draw]
    exact .get (.pure sound (knows_typeExpr sound (h _ (by simp [ExprSketch.handles]))))
  | call callee args spread =>
    rw [ExprSketch.handles, resolves_append] at h
    rw [ExprSketch.draw]
    refine .bind (exprSketch_advances sound callee h.1) ?_
    intro callee d₁ sound₁ grows₁ hcallee
    refine .bind (exprSketches_advances sound₁ args (grows₁.resolves h.2)) ?_
    intro args d₂ sound₂ grows₂ hargs
    exact .get (.pure sound₂
      (knows_call sound₂ (grows₂.knows hcallee) (resolves_flatMap.mp hargs) spread))
  | selector operand member =>
    rw [ExprSketch.handles, resolves_append] at h
    rw [ExprSketch.draw]
    refine .bind (exprSketch_advances sound operand h.1) ?_
    intro operand d₁ sound₁ grows₁ hoperand
    exact .get (.pure sound₁ (knows_selector sound₁ hoperand (grows₁ _ (h.2 _ (by simp)))))
  | methodCall receiver name sig args =>
    rw [ExprSketch.handles, resolves_append, resolves_append] at h
    rw [ExprSketch.draw]
    refine .bind (exprSketch_advances sound receiver h.1.1) ?_
    intro receiver d₁ sound₁ grows₁ hreceiver
    refine .bind (exprSketches_advances sound₁ args (grows₁.resolves h.2)) ?_
    intro args d₂ sound₂ grows₂ hargs
    have hsig := (grows₁.trans grows₂) (.type sig) (h.1.2 _ (by simp))
    exact .get (.pure sound₂ (knows_methodCall sound₂ (grows₂.knows hreceiver) hsig
      (resolves_flatMap.mp hargs) name))
  | typeAssert operand target =>
    rw [ExprSketch.handles, resolves_append] at h
    rw [ExprSketch.draw]
    refine .bind (exprSketch_advances sound operand h.1) ?_
    intro operand d₁ sound₁ grows₁ hoperand
    exact .get (.pure sound₁ (knows_typeAssert sound₁ hoperand (grows₁ _ (h.2 _ (by simp)))))
  | conversion target operand =>
    rw [ExprSketch.handles, resolves_cons] at h
    rw [ExprSketch.draw]
    refine .bind (exprSketch_advances sound operand h.2) ?_
    intro operand d₁ sound₁ grows₁ hoperand
    exact .get (.pure sound₁ (knows_conversion sound₁ (grows₁ _ h.1) hoperand))
  | compositeLit type elements =>
    rw [ExprSketch.handles, resolves_cons] at h
    rw [ExprSketch.draw]
    refine .bind (exprSketches_advances sound elements h.2) ?_
    intro elements d₁ sound₁ grows₁ helements
    exact .get (.pure sound₁
      (knows_compositeLit sound₁ (grows₁ _ h.1) (resolves_flatMap.mp helements)))
  | keyValue field type value =>
    rw [ExprSketch.handles, resolves_cons] at h
    rw [ExprSketch.draw]
    refine .bind (exprSketch_advances sound value h.2) ?_
    intro value d₁ sound₁ grows₁ hvalue
    exact .pure sound₁ (knows_keyValue (grows₁ _ h.1) hvalue field)
  | funcLit params body =>
    rw [ExprSketch.handles, resolves_append] at h
    rw [ExprSketch.draw]
    refine .bind (stmtSketches_advances sound body h.2) ?_
    intro body d₁ sound₁ grows₁ hbody
    exact funcLit_advances sound₁ (grows₁.resolves h.1) (resolves_flatMap.mp hbody)
  | literal value type =>
    rw [ExprSketch.draw]
    exact .pure sound (knows_literal (h _ (by simp [ExprSketch.handles])) value)
  | done e =>
    rw [ExprSketch.handles] at h
    rw [ExprSketch.draw]
    exact .pure sound h

theorem exprSketches_advances {d : Draft} (sound : d.Sound) (sketches : List ExprSketch)
    (h : d.Resolves (ExprSketch.handlesOfAll sketches)) :
    d.Advances ((ExprSketch.drawAll sketches).run d) fun es =>
      es.flatMap fun e => (Node.expr e).handles := by
  cases sketches with
  | nil =>
    rw [ExprSketch.drawAll]
    exact .pure sound (by simp)
  | cons sketch sketches =>
    rw [ExprSketch.handlesOfAll, resolves_append] at h
    rw [ExprSketch.drawAll]
    refine .bind (exprSketch_advances sound sketch h.1) ?_
    intro e d₁ sound₁ grows₁ he
    refine .bind (exprSketches_advances sound₁ sketches (grows₁.resolves h.2)) ?_
    intro es d₂ sound₂ grows₂ hes
    refine .pure sound₂ ?_
    rw [List.flatMap_cons, resolves_append]
    exact ⟨grows₂.resolves he, hes⟩

theorem stmtSketch_advances {d : Draft} (sound : d.Sound) (sketch : StmtSketch)
    (h : d.Resolves sketch.handles) :
    d.Advances (sketch.draw.run d) fun s => (Node.stmt s).handles := by
  cases sketch with
  | expr e =>
    rw [StmtSketch.handles] at h
    rw [StmtSketch.draw]
    refine .bind (exprSketch_advances sound e h) ?_
    intro e d₁ sound₁ _ he
    exact .pure sound₁ (knows_exprStmt he)
  | define object value =>
    rw [StmtSketch.handles, resolves_cons] at h
    rw [StmtSketch.draw]
    refine .bind (exprSketch_advances sound value h.2) ?_
    intro value d₁ sound₁ grows₁ hvalue
    exact .get (.pure sound₁ (knows_define (grows₁ _ h.1) hvalue))
  | done s =>
    rw [StmtSketch.handles] at h
    rw [StmtSketch.draw]
    exact .pure sound h

theorem stmtSketches_advances {d : Draft} (sound : d.Sound) (sketches : List StmtSketch)
    (h : d.Resolves (StmtSketch.handlesOfAll sketches)) :
    d.Advances ((StmtSketch.drawAll sketches).run d) fun ss =>
      ss.flatMap fun s => (Node.stmt s).handles := by
  cases sketches with
  | nil =>
    rw [StmtSketch.drawAll]
    exact .pure sound (by simp)
  | cons sketch sketches =>
    rw [StmtSketch.handlesOfAll, resolves_append] at h
    rw [StmtSketch.drawAll]
    refine .bind (stmtSketch_advances sound sketch h.1) ?_
    intro s d₁ sound₁ grows₁ hs
    refine .bind (stmtSketches_advances sound₁ sketches (grows₁.resolves h.2)) ?_
    intro ss d₂ sound₂ grows₂ hss
    refine .pure sound₂ ?_
    rw [List.flatMap_cons, resolves_append]
    exact ⟨grows₂.resolves hs, hss⟩
end

section Declarations

variable {d : Draft}

theorem pushDecl_advances (sound : d.Sound) {decl : Decl} (h : d.Knows (.decl decl)) :
    d.Advances ((pushDecl decl).run d) fun _ => [] := by
  refine .bind (currentFile_advances sound) ?_
  intro id d₁ sound₁ grows₁ _
  refine ⟨sound₁.withFiles ?_, .refl d₁, resolves_nil⟩
  intro f hf
  obtain ⟨old, hold, rfl⟩ := List.mem_map.mp hf
  have hknown := sound₁.trees old hold
  split
  · rw [knows_iff] at hknown ⊢
    refine ⟨hknown.1, ?_⟩
    intro child hchild
    simp only [Node.children, List.map_append, List.mem_append, List.map_singleton,
      List.mem_singleton] at hchild
    rcases hchild with hchild | rfl
    · exact hknown.2 child hchild
    · exact grows₁.knows h
  · exact hknown

theorem pushFunc_advances (sound : d.Sound) {receiver : Option (List Field)} {func : ObjectId}
    {params : List ObjectId} {results : List TypeId} {body : List Stmt}
    (hreceiver : ∀ fields ∈ receiver, ∀ f ∈ fields, d.Knows (.field f))
    (hfunc : d.program.resolves (.object func) = true)
    (h : d.Resolves (params.map .object ++ results.map .type))
    (hbody : ∀ s ∈ body, d.Knows (.stmt s)) :
    d.Advances ((pushFunc receiver func params results body).run d) fun _ => [] := by
  obtain ⟨hparams, hresults⟩ := resolves_append.mp h
  rw [resolves_map] at hresults
  refine .get (.bind (paramFields_advances sound hparams) ?_)
  intro fields d₁ sound₁ grows₁ hfields
  refine .get (pushDecl_advances sound₁ ?_)
  have hsignature : d₁.Knows (.funcType ⟨fields, results.map d₁.unnamedField⟩) := by
    refine knows_funcType.mpr ⟨resolves_flatMap.mp hfields, ?_⟩
    intro f hf
    obtain ⟨type, htype, rfl⟩ := List.mem_map.mp hf
    exact knows_unnamedField sound₁ (grows₁ _ (hresults type htype))
  have hblock : d₁.Knows (.block ⟨body⟩) :=
    knows_block.mpr fun s hs => grows₁.knows (hbody s hs)
  have hname := grows₁.knows (knows_defIdent hfunc)
  have hdecl : d₁.Knows (.funcDecl ⟨receiver, d.defIdent func,
      ⟨fields, results.map d₁.unnamedField⟩, some ⟨body⟩⟩) := by
    rw [knows_iff]
    refine ⟨by simp [Node.references], ?_⟩
    cases receiver with
    | none => simpa [Node.children] using ⟨hname, hsignature, hblock⟩
    | some receiver =>
      have hfields := fun f hf => grows₁.knows (hreceiver receiver rfl f hf)
      simp only [Node.children, Option.getD_some, Option.toList_some, List.mem_append,
        List.mem_map, List.mem_cons, List.not_mem_nil, or_false, List.map_cons, List.map_nil]
      rintro _ ((⟨f, hf, rfl⟩ | rfl | rfl) | rfl)
      · exact hfields f hf
      · exact hname
      · exact hsignature
      · exact hblock
  rw [knows_iff]
  simpa [Node.references, Node.children] using hdecl

theorem funcDecl_advances (sound : d.Sound) {params : List ObjectId} {results : List TypeId}
    {body : List Stmt} (h : d.Resolves (params.map .object ++ results.map .type))
    (hbody : ∀ s ∈ body, d.Knows (.stmt s)) (name : String) :
    d.Advances ((funcDecl name params results body).run d) fun id => [.object id] := by
  refine .bind (boundSignature_advances sound h) ?_
  intro sig d₁ sound₁ grows₁ hsig
  refine .bind (nextPosition_advances sound₁) ?_
  intro pos d₂ sound₂ grows₂ _
  refine .bind (home_advances sound₂) ?_
  intro current d₃ sound₃ grows₃ hcurrent
  refine .bind (addObject_advances sound₃ ?_) ?_
  · have hsig := (grows₂.trans grows₃).resolves hsig
    simpa [Object.references, ObjectKind.references] using And.intro hcurrent hsig
  · intro func d₄ sound₄ grows₄ hfunc
    have grows := ((grows₁.trans grows₂).trans grows₃).trans grows₄
    refine .bind (pushFunc_advances sound₄ (by simp) (hfunc _ (by simp)) (grows.resolves h)
      fun s hs => grows.knows (hbody s hs)) ?_
    intro _ d₅ sound₅ grows₅ _
    exact .pure sound₅ (grows₅.resolves hfunc)

/-- An object may get its position later. -/
theorem Sound.place (sound : d.Sound) (func : ObjectId) (pos : Position) :
    d.Advances ((), { d with program := { d.program with
      objects := d.program.objects.modify func.index fun object =>
        { object with pos := some pos } } }) fun _ => [] := by
  have same : ∀ {rs}, Resolves { d with program := { d.program with
      objects := d.program.objects.modify func.index fun object =>
        { object with pos := some pos } } } rs ↔ d.Resolves rs :=
    Resolves.congr rfl rfl (by simp)
  refine ⟨⟨same.mpr sound.home, fun id => same.mpr (sound.types id), sound.older, ?_,
    fun f hf => same.mpr (sound.trees f hf), fun e he => same.mpr (sound.names e he)⟩,
    .of_size (Nat.le_refl _) (Nat.le_refl _) (by simp), resolves_nil⟩
  intro object hobject
  apply same.mpr
  obtain ⟨i, hi, rfl⟩ := Array.mem_iff_getElem.mp hobject
  have hi' : i < d.program.objects.size := by simpa using hi
  have hold := sound.objects d.program.objects[i] (Array.getElem_mem hi')
  rw [Array.getElem_modify]
  split
  · exact hold
  · exact hold

theorem methodDecl_advances (sound : d.Sound) {type : TypeId} {params : List ObjectId}
    {results : List TypeId} {body : List Stmt}
    (h : d.Resolves (.type type :: (params.map .object ++ results.map .type)))
    (hbody : ∀ s ∈ body, d.Knows (.stmt s)) (pointerReceiver : Bool) (name : String) :
    d.Advances ((methodDecl type pointerReceiver name params results body).run d)
      fun id => [.object id] := by
  obtain ⟨htype, hgiven⟩ := resolves_cons.mp h
  refine .bind (boundSignature_advances sound hgiven) ?_
  intro sig d₁ sound₁ grows₁ hsig
  have hboth : d₁.Resolves [.type type, .type sig] :=
    resolves_cons.mpr ⟨grows₁ _ htype, hsig⟩
  refine .bind (addMethod_advances sound₁ hboth name pointerReceiver) ?_
  intro func d₂ sound₂ grows₂ hfunc
  refine .bind (nextPosition_advances sound₂) ?_
  intro pos d₃ sound₃ grows₃ _
  refine .bind (sound₃.place func pos) ?_
  intro _ d₄ sound₄ grows₄ _
  have grows := ((grows₁.trans grows₂).trans grows₃).trans grows₄
  -- both kinds of receivers lead to the same declaration
  have declared : ∀ receiver d₅, d₅.Sound → d₄.Grows d₅ → d₅.Resolves [.type receiver] →
      d₅.Advances ((do
        pushFunc (some [(← get).unnamedField receiver]) func params results body
        return func : Drafting ObjectId).run d₅) fun id => [.object id] := by
    intro receiver d₅ sound₅ grows₅ hreceiver
    have grows' := grows.trans grows₅
    have hfunc' := (grows₃.trans (grows₄.trans grows₅)).resolves hfunc
    have hfield := knows_unnamedField sound₅ (hreceiver _ (List.mem_singleton_self _))
    refine .get (.bind (pushFunc_advances sound₅ (by simpa using hfield)
      (hfunc' _ (List.mem_singleton_self _)) (grows'.resolves hgiven)
      fun s hs => grows'.knows (hbody s hs)) ?_)
    intro _ d₆ sound₆ grows₆ _
    exact .pure sound₆ (grows₆.resolves hfunc')
  split
  · refine .bind (addType_advances sound₄ ?_) ?_
    · simpa [TypeForm.references] using grows _ htype
    · intro receiver d₅ sound₅ grows₅ hreceiver
      exact declared receiver d₅ sound₅ grows₅ hreceiver
  · exact declared type d₄ sound₄ (.refl d₄) (by simpa using grows _ htype)

theorem typeDecl_advances (sound : d.Sound) {type : TypeId} (h : d.Resolves [.type type]) :
    d.Advances ((typeDecl type).run d) fun _ => [] := by
  refine .get ?_
  cases hname : d.typeName? type with
  | none => exact .pure sound resolves_nil
  | some object =>
    refine pushDecl_advances sound ?_
    have hdefinition := knows_typeExpr sound (sound.underlying (h _ (List.mem_singleton_self _)))
    have hspec : d.Knows (.spec (.type (d.defIdent object)
        (d.typeExpr (d.program.underlying type)))) := by
      rw [knows_iff]
      simpa [Node.references, Node.children, Spec.children] using
        ⟨knows_defIdent (sound.typeName hname), hdefinition⟩
    have hdecl : d.Knows (.genDecl ⟨.types, [.type (d.defIdent object)
        (d.typeExpr (d.program.underlying type))]⟩) := by
      rw [knows_iff]
      simpa [Node.references, Node.children] using hspec
    rw [knows_iff]
    simpa [Node.references, Node.children] using hdecl

end Declarations

end LeastContext.Draft
