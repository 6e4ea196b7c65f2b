import LeastContext.Dump.Load
import LeastContext.Proofs.Dump.Trees

namespace LeastContext

namespace Json

theorem itemsSound_iff {items : List Json} :
    itemsSound items = true ↔ ∀ item ∈ items, item.isSound = true := by
  induction items with
  | nil => simp [itemsSound]
  | cons item items ih => simp [itemsSound, ih]

@[simp] theorem isSound_map {α : Type} {encode : α → Json} {values : List α} :
    (list (values.map encode)).isSound = true ↔ ∀ x ∈ values, (encode x).isSound = true := by
  simp [isSound, itemsSound_iff]

@[simp] theorem isSound_ofList {α : Type} {encode : α → Json} {values : List α} :
    (ofList encode values).isSound = true ↔ ∀ x ∈ values, (encode x).isSound = true :=
  isSound_map

@[simp] theorem isSound_ofOption {α : Type} {encode : α → Json} {value : Option α} :
    (ofOption encode value).isSound = true ↔ ∀ x ∈ value, (encode x).isSound = true := by
  cases value <;> simp [ofOption, isSound, inRange]

theorem isSound_natural {value : Nat} (h : value < UInt64.size) :
    (natural value).isSound = true := by
  simp [isSound, inRange, h]

@[simp] theorem isSound_word (value : UInt32) : (natural value.toNat).isSound = true :=
  isSound_natural (Nat.lt_trans value.toNat_lt_size (by decide))

@[simp] theorem isSound_longWord (value : UInt64) : (natural value.toNat).isSound = true :=
  isSound_natural value.toNat_lt_size

@[simp] theorem isSound_text (text : String) : (Json.text text).isSound = true := rfl

@[simp] theorem isSound_bool (value : Bool) : (Json.bool value).isSound = true := rfl

@[simp] theorem isSound_record {fields : List (String × Json)} :
    (record fields).isSound = fieldsSound fields := by
  rw [isSound]

@[simp] theorem fieldsSound_nil : fieldsSound [] = true := by
  rw [fieldsSound]

@[simp] theorem fieldsSound_cons {key : String} {value : Json} {fields : List (String × Json)} :
    fieldsSound ((key, value) :: fields) = (value.isSound && fieldsSound fields) := by
  rw [fieldsSound]

end Json

theorem TypeId.toJson_isSound {id : TypeId} (fits : Reference.Fits (.type id)) :
    id.toJson.isSound = true :=
  Json.isSound_natural (Nat.lt_trans fits (by decide))

theorem ObjectId.toJson_isSound {id : ObjectId} (fits : Reference.Fits (.object id)) :
    id.toJson.isSound = true :=
  Json.isSound_natural (Nat.lt_trans fits (by decide))

theorem PackageId.toJson_isSound {id : PackageId} (fits : Reference.Fits (.package id)) :
    id.toJson.isSound = true :=
  Json.isSound_natural (Nat.lt_trans fits (by decide))

@[simp] theorem Position.toJson_isSound (pos : Position) : pos.toJson.isSound = true := by
  simp [Position.toJson, FileId.toJson]

theorem TypeForm.toJson_isSound {form : TypeForm} (fits : ∀ r, form.Mentions r → r.Fits) :
    form.toJson.isSound = true := by
  have part : ∀ id, form.Part id → id.toJson.isSound = true :=
    fun id hid => TypeId.toJson_isSound (fits _ (.part hid))
  cases form with
  | basic name => simp [toJson]
  | named decl =>
    have hunderlying := TypeId.toJson_isSound (fits _ .underlying)
    have hpackage : ∀ id ∈ decl.package, id.toJson.isSound = true :=
      fun id hid => PackageId.toJson_isSound (fits _ (.namePackage hid))
    have hmethods : ∀ method ∈ decl.methods, method.toJson.isSound = true := by
      intro method hm
      simp [DeclaredMethod.toJson, ObjectId.toJson_isSound (fits _ (.declaredMethod hm))]
    simpa [toJson, hunderlying] using ⟨hpackage, hmethods⟩
  | pointer elem => simp [toJson, part _ .pointerElem]
  | slice elem => simp [toJson, part _ .sliceElem]
  | array length elem => simp [toJson, part _ .arrayElem]
  | map key value => simp [toJson, part _ .mapKey, part _ .mapValue]
  | signature sig =>
    have hparams : ∀ param ∈ sig.params, param.toJson.isSound = true := by
      intro param hp
      have htype := part _ (.param hp)
      cases hobject : param.object with
      | none => simp [Param.toJson, htype, hobject]
      | some id =>
        simp [Param.toJson, htype, hobject,
          ObjectId.toJson_isSound (fits _ (.paramObject hp hobject))]
    simpa [toJson] using ⟨hparams, fun id hid => part id (.result hid)⟩
  | struct fields =>
    have hfields : ∀ field ∈ fields, field.toJson.isSound = true := by
      intro field hf
      simp [StructField.toJson, part _ (.field hf)]
    simpa [toJson] using hfields
  | interface body =>
    have hmethods : ∀ method ∈ body.methods, method.toJson.isSound = true := by
      intro method hm
      have hpackage : ∀ id ∈ method.package, id.toJson.isSound = true :=
        fun id hid => PackageId.toJson_isSound (fits _ (.methodPackage hm hid))
      simpa [InterfaceMethod.toJson, part _ (.method hm)] using hpackage
    simpa [toJson] using ⟨hmethods, fun id hid => part id (.embed hid)⟩

/-- The JSON value of a tree of any kind. -/
def Node.toJson : Node → Json
  | .file f => f.toJson
  | .decl d => d.toJson
  | .funcDecl d => .record d.toFields
  | .genDecl d => d.toJson
  | .spec s => s.toJson
  | .funcType sig => sig.toJson
  | .field f => f.toJson
  | .block b => b.toJson
  | .stmt s => s.toJson
  | .caseClause c => c.toJson
  | .expr e => e.toJson
  | .ident name => name.toJson

theorem Ident.toJson_isSound {name : Ident} (fits : (Node.ident name).Fits) :
    name.toJson.isSound = true := by
  have hbinding : ∀ b ∈ name.binding, b.toJson.isSound = true := by
    intro b hb
    have hobject := ObjectId.toJson_isSound (fits.mentioned (.binding hb))
    cases b <;> simpa [Binding.toJson, Binding.object] using hobject
  simpa [Ident.toJson] using hbinding

namespace Node

theorem exprForm_sound {form : ExprForm}
    (h : ∀ part ∈ form.children, part.toJson.isSound = true) :
    Json.fieldsSound form.toFields = true := by
  cases form <;>
    simp_all [ExprForm.toFields, ExprForm.children, toJson, or_imp, forall_and]

theorem stmt_sound {s : Stmt} (h : ∀ part ∈ s.children, part.toJson.isSound = true) :
    s.toJson.isSound = true := by
  cases s <;>
    simp_all [Stmt.toJson, Stmt.children, toJson, GenDecl.toJson, or_imp, forall_and]

theorem spec_sound {s : Spec} (h : ∀ part ∈ s.children, part.toJson.isSound = true) :
    s.toJson.isSound = true := by
  cases s <;> simp_all [Spec.toJson, Spec.children, toJson, or_imp, forall_and]

/-- A tree is sound if its parts are: the handles of its own are words. -/
theorem toJson_isSound (node : Node) (fits : node.Fits) : node.toJson.isSound = true := by
  induction node using treeInduction with
  | step node ih =>
    have h : ∀ child ∈ node.children, child.toJson.isSound = true :=
      fun child hc => ih child hc (fits.part (mem_children.mp hc))
    cases node with
    | file f =>
      simp_all [children, toJson, SourceFile.toJson, FileId.toJson]
    | decl d =>
      cases d <;> simp_all [children, toJson, Decl.toJson, GenDecl.toJson]
    | funcDecl d =>
      cases hr : d.receiver <;>
        simp_all [children, toJson, FuncDecl.toFields, or_imp, forall_and]
    | genDecl d =>
      cases d
      simp_all [children, toJson, GenDecl.toJson, GenDecl.toFields]
    | spec s => exact spec_sound h
    | funcType sig =>
      cases sig
      simp_all [children, toJson, FuncType.toJson, or_imp, forall_and]
    | field f =>
      cases f
      simp_all [children, toJson, Field.toJson, or_imp, forall_and]
    | block b =>
      cases b
      simp_all [children, toJson, Block.toJson]
    | stmt s => exact stmt_sound h
    | caseClause c =>
      cases c
      simp_all [children, toJson, CaseClause.toJson, or_imp, forall_and]
    | expr e =>
      have htype : ∀ id ∈ e.type, id.toJson.isSound = true :=
        fun id hid => TypeId.toJson_isSound (fits.mentioned (.exprType hid))
      have hform := exprForm_sound h
      cases e
      simp_all [toJson, Expr.toJson]
    | ident name => exact Ident.toJson_isSound fits

end Node

namespace Program

variable {p : Program}

end Program

end LeastContext
