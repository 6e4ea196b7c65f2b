import LeastContext.Dump.Encode
import LeastContext.Proofs.Dump.Fields
import LeastContext.Proofs.WellFormed

namespace LeastContext

/-- A handle that is a word of 32 bits. -/
def Reference.Fits : Reference → Prop
  | .type id => id.index < UInt32.size
  | .object id => id.index < UInt32.size
  | .package id => id.index < UInt32.size

namespace Dump.Decodes

variable {depth : Nat}

theorem word (value : UInt32) : Decodes depth word? (.natural value.toNat) value := by
  intro _
  simp [word?, value.toNat_lt_size]

theorem typeId {id : TypeId} (fits : Reference.Fits (.type id)) :
    Decodes depth typeId? id.toJson id := by
  intro _
  have hlt : id.index < UInt32.size := fits
  simp [typeId?, TypeId.toJson, Json.asNatBelow?, hlt]

theorem objectId {id : ObjectId} (fits : Reference.Fits (.object id)) :
    Decodes depth objectId? id.toJson id := by
  intro _
  have hlt : id.index < UInt32.size := fits
  simp [objectId?, ObjectId.toJson, Json.asNatBelow?, hlt]

theorem packageId {id : PackageId} (fits : Reference.Fits (.package id)) :
    Decodes depth packageId? id.toJson id := by
  intro _
  have hlt : id.index < UInt32.size := fits
  simp [packageId?, PackageId.toJson, Json.asNatBelow?, hlt]

theorem fileId (id : FileId) : Decodes depth fileId? id.toJson id := by
  intro hdepth
  have hword := word id.number hdepth
  simp [fileId?, FileId.toJson, hword]

theorem typeIdOrNull {id : Option TypeId} (fits : ∀ x ∈ id, Reference.Fits (.type x)) :
    Decodes depth (Dump.nullable typeId?) (.ofOption TypeId.toJson id) id :=
  .nullable nofun fun x hx => .typeId (fits x hx)

theorem packageIdOrNull {id : Option PackageId} (fits : ∀ x ∈ id, Reference.Fits (.package x)) :
    Decodes depth (Dump.nullable packageId?) (.ofOption PackageId.toJson id) id :=
  .nullable nofun fun x hx => .packageId (fits x hx)

theorem package (package : Package) : Decodes depth package? package.toJson package := by
  refine .shallower (.record ?_)
  refine .bind (.required rfl (.text _)) ?_
  refine .bind (.required rfl (.text _)) ?_
  exact .pure _

theorem position (pos : Position) : Decodes depth position? pos.toJson pos := by
  refine .shallower (.record ?_)
  refine .bind (.required rfl (.fileId _)) ?_
  refine .bind (.required rfl (.word _)) ?_
  refine .bind (.required rfl (.word _)) ?_
  exact .pure _

theorem param {param : Param} (type : Reference.Fits (.type param.type))
    (object : ∀ id ∈ param.object, Reference.Fits (.object id)) :
    Decodes depth param? param.toJson param := by
  obtain ⟨id, declared⟩ := param
  refine .shallower (.record ?_)
  refine .bind (.required rfl (.typeId type)) ?_
  cases declared with
  | none =>
    refine .bind (.omitted rfl) ?_
    exact .pure _
  | some id =>
    have written : Decodes depth (Dump.nullable objectId?) id.toJson (some id) := by
      intro hdepth
      change (objectId? id.toJson).map some = some (some id)
      rw [objectId (object id rfl) hdepth]
      rfl
    refine .bind (.optional rfl written) ?_
    exact .pure _

theorem declaredMethod {method : DeclaredMethod} (func : Reference.Fits (.object method.func)) :
    Decodes depth declaredMethod? method.toJson method := by
  refine .shallower (.record ?_)
  refine .bind (.required rfl (.objectId func)) ?_
  refine .bind (.required rfl (.bool _)) ?_
  exact .pure _

theorem structField {field : StructField} (type : Reference.Fits (.type field.type)) :
    Decodes depth structField? field.toJson field := by
  refine .shallower (.record ?_)
  refine .bind (.required rfl (.text _)) ?_
  refine .bind (.required rfl (.typeId type)) ?_
  refine .bind (.withDefault rfl (.bool _)) ?_
  exact .pure _

theorem typeIds {ids : List TypeId} (fits : ∀ id ∈ ids, Reference.Fits (.type id)) :
    Decodes depth (Json.asList? typeId?) (.ofList TypeId.toJson ids) ids :=
  .list fun id hid => .typeId (fits id hid)

/-- An object is read back from a record that holds the fields of its kind among its own. -/
theorem object {object : Object} (fits : ∀ r, object.Mentions r → r.Fits) :
    Decodes depth object? object.toJson object := by
  obtain ⟨name, kind, package, type, pos⟩ := object
  have hpackage : Decodes depth (Dump.nullable packageId?) (.ofOption PackageId.toJson package)
      package := .packageIdOrNull fun id hid => fits _ (.package hid)
  have htype : Decodes depth (Dump.nullable typeId?) (.ofOption TypeId.toJson type) type :=
    .typeIdOrNull fun id hid => fits _ (.type hid)
  have hpos : Decodes depth (Dump.nullable position?) (.ofOption Position.toJson pos) pos :=
    .nullable nofun fun x _ => .position x
  refine .shallower ?_
  cases kind with
  | method receiver =>
    have hreceiver := fits _ (.receiver rfl)
    refine .taggedWithin rfl (by decide) ?_
    refine .bind (.bind (.required rfl (.typeId hreceiver)) (.pure _)) ?_
    exact .bind (.required rfl (.text _)) (.bind (.optional rfl hpackage)
      (.bind (.optional rfl htype) (.bind (.optional rfl hpos) (.pure _))))
  | _ =>
    refine .taggedWithin rfl (by decide) (.bind (.pure _) ?_)
    exact .bind (.required rfl (.text _)) (.bind (.optional rfl hpackage)
      (.bind (.optional rfl htype) (.bind (.optional rfl hpos) (.pure _))))

end Dump.Decodes

end LeastContext
