import LeastContext.Proofs.PartWalks
import LeastContext.Proofs.Strict.Basic

namespace LeastContext

open Strict

namespace Program

variable {p : Program} {id a b : TypeId}

theorem formM_ok (h : p.resolves (.type id)) : p.formM (m := Strict) id = .ok (p.form id) := by
  rw [form_def]
  exact entry_ok (by simpa [resolves] using h) _ _

theorem objectM_ok {id : ObjectId} (h : p.resolves (.object id)) :
    p.objectM (m := Strict) id = .ok (p.object id) := by
  rw [object_def]
  exact entry_ok (by simpa [resolves] using h) _ _

theorem packageOfM_ok {id : PackageId} (h : p.resolves (.package id)) :
    p.packageOfM (m := Strict) id = .ok (p.packageOf id) := by
  rw [packageOf_def]
  exact entry_ok (by simpa [resolves] using h) _ _

theorem resolves_of_isNamed (h : (p.form id).isNamed = true) : p.resolves (.type id) := by
  simpa [resolves] using inside_of_named h

theorem resolves_of_named {decl : NamedType} (h : p.named? id = some decl) :
    p.resolves (.type id) := by
  apply resolves_of_isNamed
  rw [named?_def] at h
  split at h
  · simp [*, TypeForm.isNamed]
  · cases h

theorem resolves_of_interface {body : Interface} (h : p.interface? id = some body) :
    p.resolves (.type id) := by
  obtain ⟨b, hdefined, hform⟩ := interface?_eq_some.mp h
  have inside : b.index < p.types.size := by
    by_contra outside
    rw [form_outside outside] at hform
    cases hform
  simpa [resolves] using hdefined.inside inside

theorem namedM_ok (h : p.resolves (.type id)) : p.namedM (m := Strict) id = .ok (p.named? id) := by
  rw [namedM, named?_def, formM_ok h, ok_bind]
  cases p.form id <;> rfl

section WellFormed

variable (wf : p.WellFormed)
include wf

theorem form_resolves {form : TypeForm} {r : Reference} (hform : p.form id = form)
    (h : form.Mentions r) : p.resolves r := by
  by_cases hid : id.index < p.types.size
  · exact wf.resolved r (.type (mem_types.mpr ⟨id, hid, hform⟩) h)
  · rw [form_outside hid] at hform
    subst hform
    cases h with
    | part h => cases h

theorem part_resolves {form : TypeForm} (hform : p.form a = form) (h : form.Part b) :
    p.resolves (.type b) :=
  form_resolves wf hform (.part h)

theorem object_resolves {id : ObjectId} {r : Reference} (h : (p.object id).Mentions r) :
    p.resolves r := by
  by_cases hid : id.index < p.objects.size
  · refine wf.resolved r (.object ?_ h)
    simp [object_def, Array.getD, hid]
  · have hout : p.object id = ⟨"", .builtin, none, none, none⟩ := by
      simp [object_def, Array.getD, hid]
    rw [hout] at h
    cases h with
    | package h | type h | receiver h => cases h

theorem node_resolves {node : Node} {r : Reference} (hn : p.Contains node) (h : node.Mentions r) :
    p.resolves r :=
  wf.resolved r (.node hn h)

theorem embed_resolves (h : b ∈ p.embeds a) : p.resolves (.type b) := by
  obtain ⟨c, body, _, hform, hb⟩ := mem_embeds.mp h
  exact part_resolves wf hform (.embed hb)

theorem exists_definedBy (id : TypeId) : ∃ b, p.DefinedBy id b := by
  cases hn : (p.form id).isNamed with
  | true => exact wf.founded id hn
  | false => exact ⟨id, [], .stop (declaredAs_none.mpr hn)⟩

theorem definedBy_resolves (h : p.DefinedBy a b) (ha : p.resolves (.type a)) :
    p.resolves (.type b) := by
  obtain ⟨names, chain⟩ := h
  induction chain with
  | stop _ => exact ha
  | @link a next _ _ step _ ih =>
    obtain ⟨decl, hform, rfl⟩ := declaredAs_eq_some.mp step
    exact ih (form_resolves wf hform .underlying)

theorem underlying_resolves (h : p.resolves (.type id)) : p.resolves (.type (p.underlying id)) := by
  obtain ⟨b, hd⟩ := exists_definedBy wf id
  rw [hd.underlying_eq]
  exact definedBy_resolves wf hd h

theorem underlyingWithinM_ok {names : List TypeId} (chain : Chain p.declaredAs a names b)
    (ha : p.resolves (.type a)) {steps : Nat} (hs : names.length < steps) :
    p.underlyingWithinM (m := Strict) steps a = .ok (p.underlyingWithin steps a) := by
  induction chain generalizing steps with
  | stop last =>
    cases steps with
    | zero => simp at hs
    | succ steps =>
      rw [underlyingWithinM, underlyingWithin_succ, formM_ok ha]
      cases hf : p.form _ with
      | named decl => simp [declaredAs_some hf] at last
      | _ => rfl
  | @link a next _ _ step rest ih =>
    cases steps with
    | zero => simp at hs
    | succ steps =>
      have hne := (Chain.link step rest).next_ne_self
      obtain ⟨decl, hform, rfl⟩ := declaredAs_eq_some.mp step
      have hnext := form_resolves wf hform .underlying
      have hne : decl.underlying ≠ a := by
        intro he
        exact hne (step.trans (congrArg some he))
      rw [underlyingWithinM, underlyingWithin_succ, formM_ok ha]
      simp only [hform, ok_bind, hne, if_false]
      exact ih hnext (by simpa using hs)

theorem underlyingM_ok (h : p.resolves (.type id)) :
    p.underlyingM (m := Strict) id = .ok (p.underlying id) := by
  obtain ⟨b, names, chain⟩ := exists_definedBy wf id
  exact underlyingWithinM_ok wf chain h (Nat.lt_succ_of_le (definition_length_le chain))

theorem interfaceM_ok (h : p.resolves (.type id)) :
    p.interfaceM (m := Strict) id = .ok (p.interface? id) := by
  rw [interfaceM, interface?_def, underlyingM_ok wf h, ok_bind, formM_ok (underlying_resolves wf h),
    ok_bind]
  cases p.form (p.underlying id) <;> rfl

theorem isInterfaceM_ok (h : p.resolves (.type id)) :
    p.isInterfaceM (m := Strict) id = .ok (p.isInterface id) := by
  rw [isInterfaceM, interfaceM_ok wf h]
  rfl

theorem embedsM_ok (h : p.resolves (.type id)) :
    p.embedsM (m := Strict) id = .ok (p.embeds id) := by
  rw [embedsM, embeds_def, interfaceM_ok wf h, ok_bind]
  cases p.interface? id <;> rfl

theorem unwrapPointersWithinM_ok {steps : Nat} (h : p.resolves (.type id))
    (ends : Digraph.Shallow (fun id => (p.form id).parts) steps id) :
    p.unwrapPointersWithinM (m := Strict) steps id = .ok (p.unwrapPointersWithin steps id) := by
  induction steps generalizing id with
  | zero => exact ends.elim
  | succ steps ih =>
    rw [unwrapPointersWithinM, unwrapPointersWithin_succ, formM_ok h, ok_bind]
    cases hform : p.form id with
    | pointer elem =>
      have hpart : elem ∈ (p.form id).parts := by simp [hform, TypeForm.parts]
      exact ih (part_resolves wf hform .pointerElem) (ends.next hpart)
    | _ => rfl

theorem unwrapPointersM_ok (h : p.resolves (.type id)) :
    p.unwrapPointersM (m := Strict) id = .ok (p.unwrapPointers id) :=
  unwrapPointersWithinM_ok wf h (parts_shallow wf id)

theorem isTypeM_ok (h : p.resolves (.type id)) (path name : String) :
    p.isTypeM (m := Strict) id path name = .ok (p.isType id path name) := by
  rw [isTypeM, isType_def, namedM_ok h, ok_bind]
  cases hn : p.named? id with
  | none => rfl
  | some decl =>
    dsimp only
    split
    · cases hp : decl.package with
      | none => rfl
      | some package =>
        have hpackage := form_resolves wf (named?_eq_some.mp hn) (.namePackage hp)
        simp [packageOfM_ok hpackage]
    · rfl

end WellFormed

end Program

end LeastContext
