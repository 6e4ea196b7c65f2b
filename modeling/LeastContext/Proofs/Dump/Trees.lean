import LeastContext.Proofs.Dump.Tables

namespace LeastContext

/-- All handles that occur in a tree are words of 32 bits. -/
def Node.Fits (node : Node) : Prop :=
  ∀ part, Relation.ReflTransGen Node.Part node part → ∀ r, part.Mentions r → r.Fits

theorem Node.Fits.part {node part : Node} (h : node.Fits) (hp : node.Part part) : part.Fits :=
  fun below hbelow => h below (.head hp hbelow)

theorem Node.Fits.mentioned {node : Node} {r : Reference} (h : node.Fits) (hr : node.Mentions r) :
    r.Fits :=
  h node .refl r hr

@[simp] theorem exprsToJson_eq (es : List Expr) : exprsToJson es = es.map Expr.toJson := by
  induction es with
  | nil => rfl
  | cons e es ih => rw [exprsToJson, ih, List.map_cons]

@[simp] theorem fieldsToJson_eq (fs : List Field) : fieldsToJson fs = fs.map Field.toJson := by
  induction fs with
  | nil => rfl
  | cons f fs ih => rw [fieldsToJson, ih, List.map_cons]

@[simp] theorem specsToJson_eq (ss : List Spec) : specsToJson ss = ss.map Spec.toJson := by
  induction ss with
  | nil => rfl
  | cons s ss ih => rw [specsToJson, ih, List.map_cons]

@[simp] theorem clausesToJson_eq (cs : List CaseClause) :
    clausesToJson cs = cs.map CaseClause.toJson := by
  induction cs with
  | nil => rfl
  | cons c cs ih => rw [clausesToJson, ih, List.map_cons]

@[simp] theorem stmtsToJson_eq (ss : List Stmt) : stmtsToJson ss = ss.map Stmt.toJson := by
  induction ss with
  | nil => rfl
  | cons s ss ih => rw [stmtsToJson, ih, List.map_cons]

@[simp] theorem exprOrNull_eq (e : Option Expr) : exprOrNull e = .ofOption Expr.toJson e := by
  cases e <;> rfl

@[simp] theorem stmtOrNull_eq (s : Option Stmt) : stmtOrNull s = .ofOption Stmt.toJson s := by
  cases s <;> rfl

theorem Expr.toJson_ne_null (e : Expr) : e.toJson ≠ .null := by
  cases e
  nofun

theorem Stmt.toJson_ne_null (s : Stmt) : s.toJson ≠ .null := by
  cases s <;> nofun

namespace Dump

variable {depth : Nat}

namespace Decodes

theorem binding {binding : Binding} (fits : Reference.Fits (.object binding.object)) :
    Decodes depth binding? binding.toJson binding := by
  intro _
  have hobject := @objectId 0 _ fits (Nat.le_refl 0)
  cases binding <;> simp_all [Binding.toJson, Binding.object, binding?]

theorem ident {name : Ident} (fits : (Node.ident name).Fits) :
    Decodes depth ident? name.toJson name := by
  have hbinding : Decodes depth (Dump.nullable binding?)
      (.ofOption Binding.toJson name.binding) name.binding := by
    refine .nullable (fun b => by cases b <;> nofun) ?_
    intro b hb
    exact .binding (fits.mentioned (.binding hb))
  refine .shallower (.record ?_)
  refine .bind (.required rfl (.text _)) ?_
  refine .bind (.withDefault rfl (.position _)) ?_
  refine .bind (.optional rfl hbinding) ?_
  exact .pure _

theorem idents {names : List Ident} (fits : ∀ name ∈ names, (Node.ident name).Fits) :
    Decodes depth (Json.asList? ident?) (.ofList Ident.toJson names) names :=
  .list fun name hname => .ident (fits name hname)

theorem declKind (kind : DeclKind) : Decodes depth declKind? (.text kind.word) kind := by
  intro _
  cases kind <;> rfl

end Decodes

/-- The readers give back every tree that nests no deeper. -/
structure ReadsBack (readers : TreeReaders) (depth : Nat) : Prop where
  expr : ∀ e : Expr, (Node.expr e).Fits → Decodes depth readers.expr e.toJson e
  stmt : ∀ s : Stmt, (Node.stmt s).Fits → Decodes depth readers.stmt s.toJson s

namespace ReadsBack

variable {readers : TreeReaders} (h : ReadsBack readers depth)
include h

theorem exprs {es : List Expr} (fits : ∀ e ∈ es, (Node.expr e).Fits) :
    Decodes depth readers.exprs (.list (exprsToJson es)) es := by
  rw [exprsToJson_eq]
  exact .list fun e he => h.expr e (fits e he)

theorem exprOrNull {e : Option Expr} (fits : ∀ x ∈ e, (Node.expr x).Fits) :
    Decodes depth (nullable readers.expr) (exprOrNull e) e := by
  rw [exprOrNull_eq]
  exact .nullable Expr.toJson_ne_null fun x hx => h.expr x (fits x hx)

theorem stmts {ss : List Stmt} (fits : ∀ s ∈ ss, (Node.stmt s).Fits) :
    Decodes depth (Json.asList? readers.stmt) (.list (stmtsToJson ss)) ss := by
  rw [stmtsToJson_eq]
  exact .list fun s hs => h.stmt s (fits s hs)

theorem stmtOrNull {s : Option Stmt} (fits : ∀ x ∈ s, (Node.stmt x).Fits) :
    Decodes depth (nullable readers.stmt) (stmtOrNull s) s := by
  rw [stmtOrNull_eq]
  exact .nullable Stmt.toJson_ne_null fun x hx => h.stmt x (fits x hx)

theorem field {f : Field} (fits : (Node.field f).Fits) :
    Decodes depth readers.field f.toJson f := by
  obtain ⟨names, type⟩ := f
  refine .shallower (.record ?_)
  refine .bind (.withDefault rfl (.idents fun name hn => fits.part (.fieldName hn))) ?_
  refine .bind (.required rfl (h.expr type (fits.part .fieldType))) ?_
  exact .pure _

theorem fields {fs : List Field} (fits : ∀ f ∈ fs, (Node.field f).Fits) :
    Decodes depth (Json.asList? readers.field) (.list (fieldsToJson fs)) fs := by
  rw [fieldsToJson_eq]
  exact .list fun f hf => h.field (fits f hf)

theorem funcType {signature : FuncType} (fits : (Node.funcType signature).Fits) :
    Decodes depth readers.funcType signature.toJson signature := by
  obtain ⟨params, results⟩ := signature
  refine .shallower (.record ?_)
  refine .bind (.withDefault rfl (h.fields fun f hf => fits.part (.param hf))) ?_
  refine .bind (.withDefault rfl (h.fields fun f hf => fits.part (.result hf))) ?_
  exact .pure _

theorem block {b : Block} (fits : (Node.block b).Fits) :
    Decodes depth readers.block b.toJson b := by
  obtain ⟨stmts⟩ := b
  refine .shallower (.record ?_)
  refine .bind (.withDefault rfl (h.stmts fun s hs => fits.part (.stmtOf hs))) ?_
  exact .pure _

theorem caseClause {c : CaseClause} (fits : (Node.caseClause c).Fits) :
    Decodes depth readers.caseClause c.toJson c := by
  obtain ⟨cases, body⟩ := c
  refine .shallower (.record ?_)
  refine .bind (.withDefault rfl (h.exprs fun e he => fits.part (.caseOf he))) ?_
  refine .bind (.withDefault rfl (h.stmts fun s hs => fits.part (.caseStmt hs))) ?_
  exact .pure _

theorem clauses {cs : List CaseClause} (fits : ∀ c ∈ cs, (Node.caseClause c).Fits) :
    Decodes depth (Json.asList? readers.caseClause) (.list (clausesToJson cs)) cs := by
  rw [clausesToJson_eq]
  exact .list fun c hc => h.caseClause (fits c hc)

theorem spec {s : Spec} (fits : (Node.spec s).Fits) : Decodes depth readers.spec s.toJson s := by
  refine .shallower ?_
  cases s with
  | importing name path =>
    have hname : Decodes depth (nullable ident?) (.ofOption Ident.toJson name) name := by
      refine .nullable nofun ?_
      rintro x rfl
      exact .ident (fits.part (.ofSpec .importName))
    refine .tagged rfl (by decide) ?_
    refine .bind (.optional rfl hname) ?_
    refine .bind (.required rfl (.text _)) ?_
    exact .pure _
  | value names type values =>
    refine .tagged rfl (by decide) ?_
    refine .bind (.required rfl (.idents fun x hx => fits.part (.ofSpec (.valueName hx)))) ?_
    refine .bind (.optional rfl (h.exprOrNull ?_)) ?_
    · rintro x rfl
      exact fits.part (.ofSpec .valueType)
    refine .bind (.withDefault rfl (h.exprs fun e he => fits.part (.ofSpec (.initializer he)))) ?_
    exact .pure _
  | type name definition =>
    refine .tagged rfl (by decide) ?_
    refine .bind (.required rfl (.ident (fits.part (.ofSpec .typeName)))) ?_
    refine .bind (.required rfl (h.expr _ (fits.part (.ofSpec .definition)))) ?_
    exact .pure _

theorem specs {ss : List Spec} (fits : ∀ s ∈ ss, (Node.spec s).Fits) :
    Decodes depth (Json.asList? readers.spec) (.list (specsToJson ss)) ss := by
  rw [specsToJson_eq]
  exact .list fun s hs => h.spec (fits s hs)

theorem genDecl {d : GenDecl} (fits : (Node.genDecl d).Fits)
    {fields : List (String × Json)} (kind : fields.lookup "kind" = some (.text d.kind.word))
    (specs : fields.lookup "specs" = some (.list (specsToJson d.specs))) :
    Reads depth readers.genDeclFields fields d := by
  obtain ⟨kinds, written⟩ := d
  refine .bind (.required kind (.declKind _)) ?_
  refine .bind (.withDefault specs (h.specs fun s hs => fits.part (.specOf hs))) ?_
  exact .pure _

/-- The fields of an expression's form are read from the record of the expression. -/
theorem exprForm {form : ExprForm} {type : Option TypeId} (fits : (Node.expr ⟨form, type⟩).Fits) :
    Reads depth (readers.exprFields form.tag)
      (("expr", .text form.tag) :: ("ty", .ofOption TypeId.toJson type) :: form.toFields) form := by
  cases form with
  | ident name =>
    refine .bind (.required rfl (.ident (fits.part (.ofExpr .ident)))) ?_
    exact .pure _
  | literal text =>
    refine .bind (.required rfl (.text _)) ?_
    exact .pure _
  | paren inner =>
    refine .bind (.required rfl (h.expr _ (fits.part (.ofExpr .paren)))) ?_
    exact .pure _
  | selector operand member =>
    refine .bind (.required rfl (h.expr _ (fits.part (.ofExpr .selectorOperand)))) ?_
    refine .bind (.required rfl (.ident (fits.part (.ofExpr .selectorMember)))) ?_
    exact .pure _
  | call callee args spread =>
    refine .bind (.required rfl (h.expr _ (fits.part (.ofExpr .callee)))) ?_
    refine .bind (.withDefault rfl (h.exprs fun e he => fits.part (.ofExpr (.argument he)))) ?_
    refine .bind (.withDefault rfl (.bool _)) ?_
    exact .pure _
  | conversion target operand =>
    refine .bind (.required rfl (h.expr _ (fits.part (.ofExpr .conversionTarget)))) ?_
    refine .bind (.required rfl (h.expr _ (fits.part (.ofExpr .conversionOperand)))) ?_
    exact .pure _
  | typeAssert operand target =>
    refine .bind (.required rfl (h.expr _ (fits.part (.ofExpr .assertOperand)))) ?_
    refine .bind (.optional rfl (h.exprOrNull ?_)) ?_
    · rintro x rfl
      exact fits.part (.ofExpr .assertTarget)
    exact .pure _
  | compositeLit type elements =>
    refine .bind (.optional rfl (h.exprOrNull ?_)) ?_
    · rintro x rfl
      exact fits.part (.ofExpr .literalType)
    refine .bind (.withDefault rfl (h.exprs fun e he => fits.part (.ofExpr (.element he)))) ?_
    exact .pure _
  | keyValue key value =>
    refine .bind (.required rfl (h.expr _ (fits.part (.ofExpr .key)))) ?_
    refine .bind (.required rfl (h.expr _ (fits.part (.ofExpr .value)))) ?_
    exact .pure _
  | funcLit signature body =>
    refine .bind (.required rfl (h.funcType (fits.part (.ofExpr .funcLitSignature)))) ?_
    refine .bind (.required rfl (h.block (fits.part (.ofExpr .funcLitBody)))) ?_
    exact .pure _
  | unary operator operand =>
    refine .bind (.required rfl (.text _)) ?_
    refine .bind (.required rfl (h.expr _ (fits.part (.ofExpr .unary)))) ?_
    exact .pure _
  | binary operator left right =>
    refine .bind (.required rfl (.text _)) ?_
    refine .bind (.required rfl (h.expr _ (fits.part (.ofExpr .left)))) ?_
    refine .bind (.required rfl (h.expr _ (fits.part (.ofExpr .right)))) ?_
    exact .pure _
  | star operand =>
    refine .bind (.required rfl (h.expr _ (fits.part (.ofExpr .star)))) ?_
    exact .pure _
  | index operand position =>
    refine .bind (.required rfl (h.expr _ (fits.part (.ofExpr .indexOperand)))) ?_
    refine .bind (.required rfl (h.expr _ (fits.part (.ofExpr .indexPosition)))) ?_
    exact .pure _
  | sliceOf operand low high =>
    refine .bind (.required rfl (h.expr _ (fits.part (.ofExpr .sliceOperand)))) ?_
    refine .bind (.optional rfl (h.exprOrNull ?_)) (.bind (.optional rfl (h.exprOrNull ?_)) ?_)
    · rintro x rfl
      exact fits.part (.ofExpr .sliceLow)
    · rintro x rfl
      exact fits.part (.ofExpr .sliceHigh)
    exact .pure _
  | funcType signature =>
    refine .bind (.required rfl (h.funcType (fits.part (.ofExpr .funcType)))) ?_
    exact .pure _
  | interfaceType members =>
    refine .bind (.withDefault rfl (h.fields fun f hf => fits.part (.ofExpr (.member hf)))) ?_
    exact .pure _
  | structType fields =>
    refine .bind (.withDefault rfl (h.fields fun f hf => fits.part (.ofExpr (.structField hf)))) ?_
    exact .pure _
  | arrayType length elem =>
    refine .bind (.optional rfl (h.exprOrNull ?_)) ?_
    · rintro x rfl
      exact fits.part (.ofExpr .arrayLength)
    refine .bind (.required rfl (h.expr _ (fits.part (.ofExpr .arrayElem)))) ?_
    exact .pure _
  | mapType key value =>
    refine .bind (.required rfl (h.expr _ (fits.part (.ofExpr .mapKey)))) ?_
    refine .bind (.required rfl (h.expr _ (fits.part (.ofExpr .mapValue)))) ?_
    exact .pure _
  | ellipsis elem =>
    refine .bind (.required rfl (h.expr _ (fits.part (.ofExpr .ellipsis)))) ?_
    exact .pure _

theorem stmtForm {s : Stmt} (fits : (Node.stmt s).Fits) :
    Decodes (depth + 1) (tagged "stmt" stmtTags true readers.stmtFields) s.toJson s := by
  cases s with
  | expr e =>
    refine .tagged rfl (by decide) ?_
    refine .bind (.required rfl (h.expr _ (fits.part (.ofStmt .expr)))) ?_
    exact .pure _
  | decl d =>
    have hdecl := fits.part (.ofStmt .decl)
    obtain ⟨kind, specs⟩ := d
    refine .tagged rfl (by decide) ?_
    refine .bind (.required rfl (.shallower (.record (h.genDecl hdecl rfl rfl)))) ?_
    exact .pure _
  | assign targets values define =>
    refine .tagged rfl (by decide) ?_
    refine .bind (.required rfl (h.exprs fun e he => fits.part (.ofStmt (.assignTarget he)))) ?_
    refine .bind (.required rfl (h.exprs fun e he => fits.part (.ofStmt (.assignValue he)))) ?_
    refine .bind (.withDefault rfl (.bool _)) ?_
    exact .pure _
  | incDec operand =>
    refine .tagged rfl (by decide) ?_
    refine .bind (.required rfl (h.expr _ (fits.part (.ofStmt .incDec)))) ?_
    exact .pure _
  | returning results =>
    refine .tagged rfl (by decide) ?_
    refine .bind (.withDefault rfl (h.exprs fun e he => fits.part (.ofStmt (.result he)))) ?_
    exact .pure _
  | block b =>
    refine .tagged rfl (by decide) ?_
    refine .bind (.required rfl (h.block (fits.part (.ofStmt .block)))) ?_
    exact .pure _
  | ifThen init condition body otherwise =>
    have hinit : ∀ x ∈ init, (Node.stmt x).Fits := by
      rintro x rfl
      exact fits.part (.ofStmt .ifInit)
    have hotherwise : ∀ x ∈ otherwise, (Node.stmt x).Fits := by
      rintro x rfl
      exact fits.part (.ofStmt .otherwise)
    refine .tagged rfl (by decide) ?_
    refine .bind (.optional rfl (h.stmtOrNull hinit)) ?_
    refine .bind (.required rfl (h.expr _ (fits.part (.ofStmt .ifCondition)))) ?_
    refine .bind (.required rfl (h.block (fits.part (.ofStmt .ifBody)))) ?_
    refine .bind (.optional rfl (h.stmtOrNull hotherwise)) ?_
    exact .pure _
  | forLoop init condition post body =>
    have hinit : ∀ x ∈ init, (Node.stmt x).Fits := by
      rintro x rfl
      exact fits.part (.ofStmt .forInit)
    have hcondition : ∀ x ∈ condition, (Node.expr x).Fits := by
      rintro x rfl
      exact fits.part (.ofStmt .forCondition)
    have hpost : ∀ x ∈ post, (Node.stmt x).Fits := by
      rintro x rfl
      exact fits.part (.ofStmt .forPost)
    refine .tagged rfl (by decide) ?_
    refine .bind (.optional rfl (h.stmtOrNull hinit)) ?_
    refine .bind (.optional rfl (h.exprOrNull hcondition)) ?_
    refine .bind (.optional rfl (h.stmtOrNull hpost)) ?_
    refine .bind (.required rfl (h.block (fits.part (.ofStmt .forBody)))) ?_
    exact .pure _
  | range key value operand body =>
    have hkey : ∀ x ∈ key, (Node.expr x).Fits := by
      rintro x rfl
      exact fits.part (.ofStmt .rangeKey)
    have hvalue : ∀ x ∈ value, (Node.expr x).Fits := by
      rintro x rfl
      exact fits.part (.ofStmt .rangeValue)
    refine .tagged rfl (by decide) ?_
    refine .bind (.optional rfl (h.exprOrNull hkey)) ?_
    refine .bind (.optional rfl (h.exprOrNull hvalue)) ?_
    refine .bind (.required rfl (h.expr _ (fits.part (.ofStmt .rangeOperand)))) ?_
    refine .bind (.required rfl (h.block (fits.part (.ofStmt .rangeBody)))) ?_
    exact .pure _
  | switch init tag clauses =>
    have hinit : ∀ x ∈ init, (Node.stmt x).Fits := by
      rintro x rfl
      exact fits.part (.ofStmt .switchInit)
    have htag : ∀ x ∈ tag, (Node.expr x).Fits := by
      rintro x rfl
      exact fits.part (.ofStmt .switchTag)
    refine .tagged rfl (by decide) ?_
    refine .bind (.optional rfl (h.stmtOrNull hinit)) ?_
    refine .bind (.optional rfl (h.exprOrNull htag)) ?_
    refine .bind (.required rfl (h.clauses fun c hc => fits.part (.ofStmt (.switchClause hc)))) ?_
    exact .pure _
  | typeSwitch init guard clauses =>
    have hinit : ∀ x ∈ init, (Node.stmt x).Fits := by
      rintro x rfl
      exact fits.part (.ofStmt .typeSwitchInit)
    refine .tagged rfl (by decide) ?_
    refine .bind (.optional rfl (h.stmtOrNull hinit)) ?_
    refine .bind (.required rfl (h.stmt _ (fits.part (.ofStmt .typeSwitchGuard)))) ?_
    refine .bind (.required rfl (h.clauses fun c hc =>
      fits.part (.ofStmt (.typeSwitchClause hc)))) ?_
    exact .pure _
  | go call =>
    refine .tagged rfl (by decide) ?_
    refine .bind (.required rfl (h.expr _ (fits.part (.ofStmt .go)))) ?_
    exact .pure _
  | defer call =>
    refine .tagged rfl (by decide) ?_
    refine .bind (.required rfl (h.expr _ (fits.part (.ofStmt .defer)))) ?_
    exact .pure _
  | branch keyword =>
    refine .tagged rfl (by decide) ?_
    refine .bind (.required rfl (.text _)) ?_
    exact .pure _

end ReadsBack

theorem exprForm_tag_mem (form : ExprForm) : form.tag ∈ exprTags := by
  cases form <;> simp [ExprForm.tag, exprTags]

/-- The readers of each depth give back the trees of that depth. No record is of depth zero. -/
theorem treeReaders_readBack (depth : Nat) : ReadsBack (treeReaders depth) depth := by
  induction depth with
  | zero =>
    constructor
    · intro e _ hdepth
      cases e
      rw [Expr.toJson, Json.depth] at hdepth
      omega
    · intro s _ hdepth
      cases s <;> rw [Stmt.toJson, Json.depth] at hdepth <;> omega
  | succ depth ih =>
    constructor
    · intro e fits
      obtain ⟨form, type⟩ := e
      rw [Expr.toJson]
      refine .taggedWithin rfl (exprForm_tag_mem form) ?_
      refine .bind (ih.exprForm fits) ?_
      refine .bind (.optional rfl (.typeIdOrNull ?_)) ?_
      · intro id hid
        exact fits.mentioned (.exprType hid)
      exact .pure _
    · intro s fits
      exact ih.stmtForm fits

end Dump

end LeastContext
