import LeastContext.Proofs.Renumbering.Trees
import LeastContext.Proofs.WellFormed

namespace LeastContext

section References

variable (r : TypeId → TypeId)

def Reference.mapTypes : Reference → Reference
  | .type id => .type (r id)
  | reference => reference

theorem TypeForm.references_mapTypes (form : TypeForm) :
    (form.mapTypes r).references = form.references.map (Reference.mapTypes r) := by
  cases form <;>
    simp [mapTypes, references, Reference.mapTypes, NamedType.mapTypes, Signature.mapTypes,
      Param.mapTypes, StructField.mapTypes, Interface.mapTypes, InterfaceMethod.mapTypes,
      List.flatMap_map, List.map_flatMap, Function.comp_def]

theorem TypeForm.parts_mapTypes (form : TypeForm) :
    (form.mapTypes r).parts = form.parts.map r := by
  cases form <;>
    simp [mapTypes, parts, Signature.mapTypes, Param.mapTypes, StructField.mapTypes,
      Interface.mapTypes, InterfaceMethod.mapTypes, Function.comp_def]

theorem TypeForm.isNamed_mapTypes (form : TypeForm) : (form.mapTypes r).isNamed = form.isNamed := by
  cases form <;> rfl

theorem Object.references_mapTypes (object : Object) :
    (object.mapTypes r).references = object.references.map (Reference.mapTypes r) := by
  cases hk : object.kind <;>
    simp [mapTypes, references, ObjectKind.mapTypes, ObjectKind.references, Reference.mapTypes, hk,
      Option.toList_map, Function.comp_def]

theorem Node.mentions_mapTypes {node : Node} {reference : Reference}
    (h : (node.mapTypes r).Mentions reference) :
    ∃ old, node.Mentions old ∧ reference = old.mapTypes r := by
  cases node with
  | expr e =>
    simp only [mapTypes] at h
    cases h with
    | exprType htype =>
      rw [Expr.type_mapTypes] at htype
      obtain ⟨type, hold, rfl⟩ := Option.map_eq_some_iff.mp htype
      exact ⟨.type type, .exprType hold, rfl⟩
  | ident i =>
    cases h with
    | binding hbinding => exact ⟨_, .binding hbinding, rfl⟩
  | _ => cases h

end References

namespace Program.Renames

variable {r : TypeId → TypeId} {p p' : Program} (h : Renames r p p')
include h

theorem resolves (reference : Reference) :
    p'.resolves (reference.mapTypes r) = p.resolves reference := by
  cases reference with
  | type id => simp [Reference.mapTypes, Program.resolves, h.size, h.inside]
  | object id => simp [Reference.mapTypes, Program.resolves, h.objects]
  | package id => simp [Reference.mapTypes, Program.resolves, h.packages]

/-- A program under new handles mentions nothing new. -/
theorem mentions {reference : Reference} (hm : p'.Mentions reference) :
    ∃ old, p.Mentions old ∧ reference = old.mapTypes r := by
  cases hm with
  | analyzed => exact ⟨.package p.package, .analyzed, by rw [h.package]; rfl⟩
  | type hform hmention =>
    obtain ⟨id, hid, rfl⟩ := mem_types.mp hform
    obtain ⟨id, rfl⟩ := h.surjective id
    rw [← TypeForm.mem_references, h.form, TypeForm.references_mapTypes] at hmention
    obtain ⟨old, hold, rfl⟩ := List.mem_map.mp hmention
    rw [h.size, h.inside] at hid
    exact ⟨old, .type (mem_types.mpr ⟨id, hid, rfl⟩) (TypeForm.mem_references.mp hold), rfl⟩
  | object hmem hmention =>
    rw [h.objects] at hmem
    obtain ⟨object, hobject, rfl⟩ := Array.mem_map.mp hmem
    rw [← Object.mem_references, Object.references_mapTypes] at hmention
    obtain ⟨old, hold, rfl⟩ := List.mem_map.mp hmention
    exact ⟨old, .object hobject (Object.mem_references.mp hold), rfl⟩
  | node hcontains hmention =>
    obtain ⟨_, hmem, hpart⟩ := hcontains
    rw [h.files] at hmem
    obtain ⟨file, hfile, rfl⟩ := List.mem_map.mp hmem
    have hall : (Node.file (file.mapTypes r)).all =
        (Node.file file).all.map (Node.mapTypes r) :=
      Node.walk_mapTypes r (fun _ => rfl) (.file file)
    rw [← Node.mem_all, hall] at hpart
    obtain ⟨node, hnode, rfl⟩ := List.mem_map.mp hpart
    obtain ⟨old, hold, rfl⟩ := Node.mentions_mapTypes r hmention
    exact ⟨old, .node ⟨file, hfile, Node.mem_all.mp hnode⟩ hold, rfl⟩

/-- No cycle comes up where every edge was one before. -/
theorem acyclic {edge edge' : TypeId → TypeId → Prop} (back : ∀ a b, edge' (r a) (r b) → edge a b)
    (hacyclic : ∀ id, ¬ Relation.TransGen edge id id) (id : TypeId) :
    ¬ Relation.TransGen edge' id id := by
  have hold : ∀ id, r (Function.surjInv h.surjective id) = id := Function.surjInv_eq h.surjective
  intro hcycle
  refine hacyclic _ (hcycle.lift (Function.surjInv h.surjective) ?_)
  intro a b hab
  apply back
  rwa [hold, hold]

theorem wellFormed (wf : p.WellFormed) : p'.WellFormed where
  resolved := by
    intro reference hm
    obtain ⟨old, hold, rfl⟩ := h.mentions hm
    rw [h.resolves]
    exact wf.resolved old hold
  founded := by
    intro id hnamed
    obtain ⟨id, rfl⟩ := h.surjective id
    rw [h.form, TypeForm.isNamed_mapTypes] at hnamed
    rw [← underlying_plain, h.underlying, h.form, TypeForm.isNamed_mapTypes]
    exact underlying_plain.mpr (wf.founded id hnamed)
  parts_acyclic := by
    refine h.acyclic ?_ wf.parts_acyclic
    intro a b hab
    rw [← TypeForm.mem_parts, h.form, TypeForm.parts_mapTypes, h.mem_map] at hab
    exact TypeForm.mem_parts.mp hab
  embeds_acyclic := by
    refine h.acyclic ?_ wf.embeds_acyclic
    intro a b hab
    rw [← mem_embeds, h.embeds, h.mem_map] at hab
    exact mem_embeds.mp hab

end Program.Renames

end LeastContext
