import LeastContext.Proofs.Renumbering.Basic
import LeastContext.Type.Rendering

namespace LeastContext.Program.Renames

variable {r : TypeId → TypeId} {p p' : Program} (h : Renames r p p')
include h

theorem object (id : ObjectId) : p'.object id = (p.object id).mapTypes r := by
  rw [Program.object_def, Program.object_def]
  rw [h.objects]
  by_cases hid : id.index < p.objects.size
  · simp [Array.getD, hid]
  · simp [Array.getD, hid, Object.mapTypes, ObjectKind.mapTypes]

theorem packageOf (id : PackageId) : p'.packageOf id = p.packageOf id := by
  rw [Program.packageOf_def, Program.packageOf_def]
  rw [h.packages]

theorem underlyingWithin (steps : Nat) (id : TypeId) :
    p'.underlyingWithin steps (r id) = r (p.underlyingWithin steps id) := by
  induction steps generalizing id with
  | zero => rfl
  | succ steps ih =>
    rw [Program.underlyingWithin_succ, Program.underlyingWithin_succ]
    rw [h.form]
    cases p.form id with
    | named decl =>
      simp only [TypeForm.mapTypes, NamedType.mapTypes, h.injective.eq_iff, ih]
      split <;> rfl
    | _ => rfl

theorem underlying (id : TypeId) : p'.underlying (r id) = r (p.underlying id) := by
  rw [Program.underlying_def, Program.underlying_def]
  rw [h.size, h.underlyingWithin]

theorem interface? (id : TypeId) :
    p'.interface? (r id) = (p.interface? id).map (Interface.mapTypes r) := by
  rw [Program.interface?_def, Program.interface?_def]
  rw [h.underlying, h.form]
  cases p.form (p.underlying id) <;> rfl

theorem isInterface (id : TypeId) : p'.isInterface (r id) = p.isInterface id := by
  simp [Program.isInterface_def, h.interface?]

theorem embeds (id : TypeId) : p'.embeds (r id) = (p.embeds id).map r := by
  rw [Program.embeds_def, Program.embeds_def]
  rw [h.interface?]
  cases p.interface? id <;> rfl

theorem named? (id : TypeId) : p'.named? (r id) = (p.named? id).map (NamedType.mapTypes r) := by
  rw [Program.named?_def, Program.named?_def]
  rw [h.form]
  cases p.form id <;> rfl

theorem unwrapPointersWithin (steps : Nat) (id : TypeId) :
    p'.unwrapPointersWithin steps (r id) = r (p.unwrapPointersWithin steps id) := by
  induction steps generalizing id with
  | zero => rfl
  | succ steps ih =>
    rw [Program.unwrapPointersWithin_succ, Program.unwrapPointersWithin_succ]
    rw [h.form]
    cases p.form id with
    | pointer elem => exact ih elem
    | _ => rfl

theorem unwrapPointers (id : TypeId) : p'.unwrapPointers (r id) = r (p.unwrapPointers id) := by
  rw [Program.unwrapPointers_def, Program.unwrapPointers_def]
  rw [h.size, h.unwrapPointersWithin]

theorem isType (id : TypeId) (path name : String) :
    p'.isType (r id) path name = p.isType id path name := by
  rw [Program.isType_def, Program.isType_def]
  rw [h.named?]
  cases p.named? id with
  | none => rfl
  | some decl => simp [NamedType.mapTypes, h.packageOf]

theorem sliceElem? (id : TypeId) : p'.sliceElem? (r id) = (p.sliceElem? id).map r := by
  rw [Program.sliceElem?_def, Program.sliceElem?_def]
  rw [h.form]
  cases p.form id <;> rfl

section Rendering

variable {render render' : TypeId → String} (same : ∀ id, render' (r id) = render id)
include same

theorem renderSignature (sig : Signature) :
    (sig.mapTypes r).render render' p'.sliceElem? = sig.render render p.sliceElem? := by
  rw [Signature.render_def, Signature.render_def]
  simp only [Signature.mapTypes, List.length_map, mapIdx_map, Param.mapTypes]
  congr 1
  · congr 4
    funext i param
    rw [h.sliceElem?]
    by_cases hlast : (sig.variadic && i == sig.params.length - 1) = true
    · rw [if_pos hlast, if_pos hlast]
      cases p.sliceElem? param.type <;> simp [same]
    · rw [if_neg hlast, if_neg hlast]
      exact same param.type
  · rcases sig.results with _ | ⟨result, _ | ⟨other, results⟩⟩ <;>
      simp [same, Function.comp_def]

theorem renderMethod (method : InterfaceMethod) :
    p'.renderMethod render' (method.mapTypes r) = p.renderMethod render method := by
  rw [Program.renderMethod_def, Program.renderMethod_def]
  simp only [InterfaceMethod.mapTypes, h.form]
  cases p.form method.signature with
  | signature sig => simp [TypeForm.mapTypes, h.renderSignature same]
  | _ => rfl

theorem renderBody (body : Interface) :
    p'.renderBody render' (body.mapTypes r) = p.renderBody render body := by
  rw [Program.renderBody_def, Program.renderBody_def]
  simp [Interface.mapTypes, Function.comp_def, h.renderMethod same, same]

omit h in
theorem renderField (field : StructField) :
    Program.renderField render' (field.mapTypes r) = Program.renderField render field := by
  simp [Program.renderField_def, StructField.mapTypes, same]

end Rendering

theorem renderName (q : Qualification) (decl : NamedType) :
    p'.renderName q (decl.mapTypes r) = p.renderName q decl := by
  simp [Program.renderName_def, NamedType.mapTypes, h.packageOf]

theorem renderWithin (q : Qualification) (depth : Nat) (id : TypeId) :
    p'.renderWithin q depth (r id) = p.renderWithin q depth id := by
  induction depth generalizing id with
  | zero => rfl
  | succ depth ih =>
    rw [Program.renderWithin_succ, Program.renderWithin_succ]
    rw [h.form]
    cases p.form id with
    | basic name => rfl
    | named decl => exact h.renderName q decl
    | pointer elem => simp [TypeForm.mapTypes, ih]
    | slice elem => simp [TypeForm.mapTypes, ih]
    | array length elem => simp [TypeForm.mapTypes, ih]
    | map key value => simp [TypeForm.mapTypes, ih]
    | signature sig => simp [TypeForm.mapTypes, h.renderSignature ih]
    | struct fields => simp [TypeForm.mapTypes, Function.comp_def, renderField ih]
    | interface body => simp [TypeForm.mapTypes, h.renderBody ih]

theorem render (q : Qualification) (id : TypeId) : p'.render q (r id) = p.render q id := by
  rw [Program.render_def, Program.render_def]
  rw [h.size, h.renderWithin]

theorem qualifiedName? (id : ObjectId) : p'.qualifiedName? id = p.qualifiedName? id := by
  rw [Program.qualifiedName?_def, Program.qualifiedName?_def]
  rw [h.object]
  cases hkind : (p.object id).kind <;>
    simp [Object.mapTypes, ObjectKind.mapTypes, hkind, h.packageOf, h.render]

end LeastContext.Program.Renames
