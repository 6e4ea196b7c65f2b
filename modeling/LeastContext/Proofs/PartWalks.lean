import LeastContext.Proofs.WalkDepth
import LeastContext.Proofs.WellFormed

namespace LeastContext.Program

/-- The type that a type points to through any number of pointers, itself if it is no pointer. -/
inductive PointsTo (p : Program) : TypeId → TypeId → Prop where
  | plain {type : TypeId} (last : ∀ elem, p.form type ≠ .pointer elem) : PointsTo p type type
  | pointer {type elem base : TypeId} (step : p.form type = .pointer elem)
      (rest : PointsTo p elem base) : PointsTo p type base

variable {p : Program} {type base : TypeId}

theorem PointsTo.unique {other : TypeId} (h : p.PointsTo type base) (h' : p.PointsTo type other) :
    base = other := by
  induction h with
  | plain last =>
    cases h' with
    | plain _ => rfl
    | pointer step _ => exact absurd step (last _)
  | pointer step _ ih =>
    cases h' with
    | plain last => exact absurd step (last _)
    | pointer step' rest' =>
      cases step.symm.trans step'
      exact ih rest'

theorem unwrapPointersWithin_pointsTo {steps : Nat}
    (h : Digraph.Shallow (fun id => (p.form id).parts) steps type) :
    p.PointsTo type (p.unwrapPointersWithin steps type) := by
  induction steps generalizing type with
  | zero => exact h.elim
  | succ steps ih =>
    rw [unwrapPointersWithin_succ]
    split
    · rename_i elem hform
      refine .pointer hform (ih (h.next ?_))
      simp [hform, TypeForm.parts]
    · rename_i hplain
      exact .plain hplain

section WellFormed

variable (wf : p.WellFormed)
include wf

theorem parts_shallow (id : TypeId) :
    Digraph.Shallow (fun id => (p.form id).parts) (p.types.size + 1) id := by
  have edge : Digraph.Edge (fun id => (p.form id).parts) = fun a b => (p.form a).Part b := by
    funext a b
    exact propext TypeForm.mem_parts
  have inside : ∀ a b, Digraph.Edge (fun id => (p.form id).parts) a b → b ∈ p.typeIds := by
    intro a b step
    exact mem_typeIds.mpr (part_inside wf.resolved (TypeForm.mem_parts.mp step))
  have hshallow := Digraph.shallow_of_acyclic inside (by rw [edge]; exact wf.parts_acyclic) id
  simpa [typeIds] using hshallow

/-- A chain of pointers is followed to its end. -/
theorem unwrapPointers_eq_iff : p.unwrapPointers type = base ↔ p.PointsTo type base := by
  have hends : p.PointsTo type (p.unwrapPointers type) :=
    unwrapPointersWithin_pointsTo (parts_shallow wf type)
  constructor
  · rintro rfl
    exact hends
  · intro h
    exact hends.unique h

end WellFormed

end LeastContext.Program
