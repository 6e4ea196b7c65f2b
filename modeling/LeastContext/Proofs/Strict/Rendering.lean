import LeastContext.Proofs.Strict.Lookups
import LeastContext.Type.Rendering

namespace LeastContext

open Strict

theorem Signature.renderM_ok {renderM : TypeId → Strict String} {render : TypeId → String}
    {elemM : TypeId → Strict (Option TypeId)} {elem? : TypeId → Option TypeId} {sig : Signature}
    (types : ∀ type ∈ (TypeForm.signature sig).parts, renderM type = .ok (render type))
    (elems : ∀ param ∈ sig.params, elemM param.type = .ok (elem? param.type))
    (variadic : ∀ param ∈ sig.params, ∀ elem, elem? param.type = some elem →
      renderM elem = .ok (render elem)) :
    sig.renderM (m := Strict) renderM elemM = .ok (sig.render render elem?) := by
  have params : ∀ param ∈ sig.params.zipIdx, sig.renderParamM (m := Strict) renderM elemM param =
      .ok (Id.run (sig.renderParamM render elem? param)) := by
    intro param hp
    have hparam := List.fst_mem_of_mem_zipIdx hp
    have htype : renderM param.1.type = .ok (render param.1.type) :=
      types _ (List.mem_append_left _ (List.mem_map_of_mem hparam))
    rw [renderParamM, renderParamM]
    split
    · rw [elems _ hparam, ok_bind]
      cases he : elem? param.1.type with
      | none => exact htype
      | some elem =>
        simp only [variadic _ hparam elem he]
        rfl
    · exact htype
  have results : sig.results.mapM renderM = .ok (sig.results.map render) :=
    mapM_ok fun type ht => types type (List.mem_append_right _ ht)
  rw [Signature.renderM, Signature.render, Signature.renderM, mapM_ok params, ok_bind, results]
  simp only [Evaluation.mapM_plain]
  rfl

namespace Program

variable {p : Program} {id : TypeId} {q : Qualification}

theorem sliceElemM_ok (h : p.resolves (.type id)) :
    p.sliceElemM (m := Strict) id = .ok (p.sliceElem? id) := by
  rw [sliceElemM, sliceElem?_def, formM_ok h, ok_bind]
  cases p.form id <;> rfl

theorem sliceElem?_mem_parts {elem : TypeId} (h : p.sliceElem? id = some elem) :
    elem ∈ (p.form id).parts := by
  rw [sliceElem?_def] at h
  split at h
  · rename_i hform
    cases h
    simp [hform, TypeForm.parts]
  · cases h

section WellFormed

variable (wf : p.WellFormed)
include wf

theorem renderNameM_ok {decl : NamedType} (hform : p.form id = .named decl) :
    p.renderNameM (m := Strict) q decl = .ok (p.renderName q decl) := by
  rw [renderNameM, renderName_def]
  cases hp : decl.package with
  | none => rfl
  | some package =>
    dsimp only
    split
    · rfl
    · rw [packageOfM_ok (form_resolves wf hform (.namePackage hp))]
      rfl

section Depth

variable {renderM : TypeId → Strict String} {render : TypeId → String} {depth : Nat}
  (texts : ∀ id, p.resolves (.type id) →
    Digraph.Shallow (fun id => (p.form id).parts) depth id → renderM id = .ok (render id))
include texts

theorem renderSignatureM_ok {sig : Signature} (hform : p.form id = .signature sig)
    (ends : ∀ part ∈ (p.form id).parts,
      Digraph.Shallow (fun id => (p.form id).parts) depth part) :
    sig.renderM (m := Strict) renderM p.sliceElemM = .ok (sig.render render p.sliceElem?) := by
  rw [hform] at ends
  have inside : ∀ part ∈ (TypeForm.signature sig).parts, p.resolves (.type part) :=
    fun part hpart => part_resolves wf hform (TypeForm.mem_parts.mp hpart)
  have params : ∀ param ∈ sig.params, param.type ∈ (TypeForm.signature sig).parts :=
    fun param hp => List.mem_append_left _ (List.mem_map_of_mem hp)
  apply Signature.renderM_ok
  · intro type ht
    exact texts type (inside type ht) (ends type ht)
  · intro param hp
    exact sliceElemM_ok (inside _ (params param hp))
  · intro param hp elem he
    have hpart := sliceElem?_mem_parts he
    refine texts elem (part_resolves wf rfl (TypeForm.mem_parts.mp hpart)) ?_
    exact (ends _ (params param hp)).below hpart

theorem renderMethodM_ok {method : InterfaceMethod} (h : p.resolves (.type method.signature))
    (ends : Digraph.Shallow (fun id => (p.form id).parts) depth method.signature) :
    p.renderMethodM (m := Strict) renderM method = .ok (p.renderMethod render method) := by
  rw [renderMethodM, renderMethod_def, formM_ok h, ok_bind]
  cases hform : p.form method.signature with
  | signature sig =>
    simp only [renderSignatureM_ok wf texts hform fun part hpart => ends.below hpart, ok_bind]
    rfl
  | _ => rfl

theorem renderBodyM_ok {body : Interface}
    (inside : ∀ type ∈ (TypeForm.interface body).parts, p.resolves (.type type))
    (ends : ∀ type ∈ (TypeForm.interface body).parts,
      Digraph.Shallow (fun id => (p.form id).parts) depth type) :
    p.renderBodyM (m := Strict) renderM body = .ok (p.renderBody render body) := by
  have methods : body.methods.mapM (p.renderMethodM (m := Strict) renderM) =
      .ok (body.methods.map (p.renderMethod render)) := by
    apply mapM_ok
    intro method hm
    have hpart : method.signature ∈ (TypeForm.interface body).parts :=
      List.mem_append_left _ (List.mem_map_of_mem hm)
    exact renderMethodM_ok wf texts (inside _ hpart) (ends _ hpart)
  have embeds : body.embeds.mapM renderM = .ok (body.embeds.map render) := by
    apply mapM_ok
    intro e he
    have hpart : e ∈ (TypeForm.interface body).parts := List.mem_append_right _ he
    exact texts e (inside e hpart) (ends e hpart)
  rw [renderBodyM, renderBody_def, methods, ok_bind, embeds]
  rfl

end Depth

theorem renderWithinM_ok {depth : Nat} (h : p.resolves (.type id))
    (ends : Digraph.Shallow (fun id => (p.form id).parts) depth id) :
    p.renderWithinM (m := Strict) q depth id = .ok (p.renderWithin q depth id) := by
  induction depth generalizing id with
  | zero => exact ends.elim
  | succ depth ih =>
    have texts : ∀ id, p.resolves (.type id) →
        Digraph.Shallow (fun id => (p.form id).parts) depth id →
          p.renderWithinM (m := Strict) q depth id = .ok (p.renderWithin q depth id) :=
      fun id => ih
    have parts : ∀ part ∈ (p.form id).parts,
        p.renderWithinM (m := Strict) q depth part = .ok (p.renderWithin q depth part) := by
      intro part hpart
      exact ih (part_resolves wf rfl (TypeForm.mem_parts.mp hpart)) (ends.next hpart)
    rw [renderWithinM, renderWithin_succ, formM_ok h, ok_bind]
    cases hform : p.form id with
    | basic name => rfl
    | named decl => exact renderNameM_ok wf hform
    | pointer elem | slice elem | array _ elem =>
      rw [hform] at parts
      simp only [parts elem (by simp [TypeForm.parts])]
      rfl
    | map key value =>
      rw [hform] at parts
      simp only [parts key (by simp [TypeForm.parts]), parts value (by simp [TypeForm.parts])]
      rfl
    | signature sig =>
      simp only [renderSignatureM_ok wf texts hform fun part hpart => ends.next hpart]
      rfl
    | struct fields =>
      rw [hform] at parts
      have fieldTexts : fields.mapM (renderFieldM (p.renderWithinM (m := Strict) q depth)) =
          .ok (fields.map (renderField (p.renderWithin q depth))) := by
        apply mapM_ok
        intro field hf
        rw [renderFieldM, parts field.type (List.mem_map_of_mem hf)]
        rfl
      simp only [fieldTexts]
      rfl
    | interface body =>
      apply renderBodyM_ok wf texts
      · intro type ht
        exact part_resolves wf hform (TypeForm.mem_parts.mp ht)
      · intro type ht
        exact ends.next (hform ▸ ht)

theorem renderM_ok (h : p.resolves (.type id)) :
    p.renderM (m := Strict) q id = .ok (p.render q id) :=
  renderWithinM_ok wf h (parts_shallow wf id)

theorem renderInterfaceM_ok {home : Option PackageId} {body : Interface}
    (inside : ∀ type ∈ (TypeForm.interface body).parts, p.resolves (.type type)) :
    p.renderInterfaceM (m := Strict) home body = .ok (p.renderInterface home body) :=
  renderBodyM_ok wf (fun _ h _ => renderM_ok wf h) inside fun type _ => parts_shallow wf type

theorem qualifiedNameM_ok {id : ObjectId} (h : p.resolves (.object id)) :
    p.qualifiedNameM (m := Strict) id = .ok (p.qualifiedName? id) := by
  rw [qualifiedNameM, qualifiedName?_def, objectM_ok h, ok_bind]
  dsimp only
  cases hk : (p.object id).kind with
  | method receiver =>
    simp only [renderM_ok wf (object_resolves wf (.receiver hk))]
    rfl
  | builtin | field | packageName => rfl
  | _ =>
    cases hp : (p.object id).package with
    | none => rfl
    | some package =>
      simp only [packageOfM_ok (object_resolves wf (.package hp))]
      rfl

end WellFormed

end Program

end LeastContext
