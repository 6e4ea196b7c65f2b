import LeastContext.Proofs.Requests
import LeastContext.Proofs.Strict.Comparison
import LeastContext.Proofs.Strict.Composition

namespace LeastContext.Program

open Strict

variable {p : Program} {id : TypeId} {request : Request} {usage : Usage}

theorem isInlineWithMethodsM_ok (h : p.resolves (.type id)) :
    p.isInlineWithMethodsM (m := Strict) id = .ok (p.isInlineWithMethods id) := by
  rw [isInlineWithMethodsM, isInlineWithMethods_def, formM_ok h, ok_bind]
  cases p.form id <;> rfl

section WellFormed

variable (wf : p.WellFormed)
include wf

theorem requestM_ok {id : ObjectId} (h : p.resolves (.object id)) :
    p.requestM (m := Strict) id = .ok (p.request? id) := by
  rw [requestM, request?_def, objectM_ok h, ok_bind]
  cases ht : (p.object id).type with
  | none => rfl
  | some declared =>
    simp only [explicitCompositionM_ok wf _ (object_resolves wf (.type ht))]
    rfl

theorem request_resolves {id : ObjectId} (h : p.request? id = some request) :
    p.resolves (.type request.declared) := by
  rw [request?_def] at h
  obtain ⟨declared, ht, rfl⟩ := Option.map_eq_some_iff.mp h
  exact object_resolves wf (.type ht)

theorem namedPartsM_ok (h : p.resolves (.type id)) :
    p.namedPartsM (m := Strict) id = .ok (p.namedParts id) := by
  rw [namedPartsM, namedParts_def, namedM_ok h, ok_bind]
  cases p.named? id with
  | none => rfl
  | some decl =>
    simp only [explicitCompositionM_ok wf _ h]
    rfl

theorem namedPart_resolves {part : TypeId} (h : part ∈ p.namedParts id) :
    p.resolves (.type part) := by
  obtain ⟨last, _, step⟩ := Relation.TransGen.tail'_iff.mp (namedParts_below wf h)
  exact embed_resolves wf (mem_embeds.mpr step)

theorem isUsedM_follows (used : ∀ type ∈ usage.interfaces, p.resolves (.type type))
    (h : p.resolves (.type id)) :
    Follows p.Unsettled (p.isUsedM usage id) (p.isUsed usage id) := by
  rw [isUsedM, isUsed_def, interfaceM_ok wf h, ok_bind]
  cases p.interface? id with
  | none => exact .inl rfl
  | some body =>
    refine (Follows.anyM fun type ht => implementsM_follows wf (used type ht) h).bind ?_
    cases usage.interfaces.any (p.implements · id) <;> exact .inl rfl

theorem isUsedM_returns (h : p.resolves (.type id)) : Returns (p.isUsedM usage id) ↔
    p.interface? id = none ∨ Returns (usage.interfaces.anyM (p.implementsM · id)) := by
  rw [isUsedM, interfaceM_ok wf h, ok_bind]
  cases p.interface? id with
  | none => simp
  | some body =>
    rw [bind_returns]
    constructor
    · rintro ⟨hit, hany, _⟩
      exact .inr ⟨hit, hany⟩
    · rintro (habsurd | ⟨hit, hany⟩)
      · cases habsurd
      · refine ⟨hit, hany, ?_⟩
        cases hit <;> exact ok_returns _

section Request

variable (declared : p.resolves (.type request.declared))
include declared

theorem isAssertedM_follows (h : p.resolves (.type id)) :
    Follows p.Unsettled (p.isAssertedM request id) (p.isAsserted request id) := by
  rw [isAssertedM, isAsserted_def, isInterfaceM_ok wf h, ok_bind]
  cases p.isInterface id with
  | false => exact .inl rfl
  | true => exact (implementsM_follows wf declared h).map

theorem isRequestedWithinM_follows {depth : Nat} (h : p.resolves (.type id))
    (ends : Digraph.Shallow p.namedParts depth id) :
    Follows p.Unsettled (p.isRequestedWithinM request depth id)
      (p.isRequestedWithin request depth id) := by
  induction depth generalizing id with
  | zero => exact ends.elim
  | succ depth ih =>
    have parts : Follows p.Unsettled
        ((p.namedParts id).allM (p.isRequestedWithinM request depth))
        ((p.namedParts id).all (p.isRequestedWithin request depth)) :=
      .allM fun part hpart => ih (namedPart_resolves wf hpart) (ends.next hpart)
    rw [isRequestedWithinM, isRequestedWithin_succ, ← isAsserted_def]
    refine (isAssertedM_follows wf declared h).bind ?_
    cases p.isAsserted request id with
    | true => exact .inl rfl
    | false =>
      rw [isInlineWithMethodsM_ok h, if_neg Bool.false_ne_true, ok_bind]
      cases p.isInlineWithMethods id with
      | true => exact .inl rfl
      | false =>
        rw [if_neg Bool.false_ne_true]
        by_cases hnamed : id ∈ request.named
        · simp [hnamed, Follows]
        · simp only [hnamed, if_false, namedPartsM_ok wf h, ok_bind, decide_false, Bool.or_false,
            Bool.false_or]
          cases hparts : p.namedParts id with
          | nil => exact .inl rfl
          | cons first more => rwa [hparts] at parts

theorem isRequestedM_follows (h : p.resolves (.type id)) :
    Follows p.Unsettled (p.isRequestedM request id) (p.isRequested request id) :=
  isRequestedWithinM_follows wf declared h (namedParts_shallow wf id)

theorem isMethodRequestedM_follows (method : String) :
    Follows p.Unsettled (p.isMethodRequestedM request method)
      (p.isMethodRequested request method) := by
  rw [isMethodRequestedM, isMethodRequested_def, explicitlyContainingM_ok wf method declared,
    ok_bind]
  exact .anyM fun type ht => isRequestedM_follows wf declared (containing_resolves wf declared ht)

theorem unusedGroupsM_follows (used : ∀ type ∈ usage.interfaces, p.resolves (.type type)) :
    Follows p.Unsettled (p.unusedGroupsM request usage) (p.unusedGroups request usage) := by
  rw [unusedGroupsM, unusedGroups_def, leafGroupsM_ok wf declared, ok_bind]
  exact .keep fun leaf hleaf =>
    (isUsedM_follows wf used (leaf_resolves wf declared hleaf)).map

theorem unrequestedPartsM_follows {used : TypeId} (h : p.resolves (.type used)) :
    Follows p.Unsettled (p.unrequestedPartsM request used)
      ((p.explicitComposition request.home used).filter
        fun part => !p.isRequested request part) := by
  rw [unrequestedPartsM, explicitCompositionM_ok wf _ h, ok_bind]
  exact .keep fun part hpart =>
    (isRequestedM_follows wf declared (composition_resolves wf h hpart)).map

theorem unrequestedMethodM_follows (method : String) :
    Follows p.Unsettled (p.unrequestedMethodM request method)
      (if p.isMethodRequested request method then []
        else p.explicitlyContaining method request.declared) := by
  rw [unrequestedMethodM]
  refine (isMethodRequestedM_follows wf declared method).bind ?_
  split
  · exact .inl rfl
  · exact .inl (explicitlyContainingM_ok wf method declared)

theorem unrequestedUsesM_follows (used : ∀ type ∈ usage.interfaces, p.resolves (.type type)) :
    Follows p.Unsettled (p.unrequestedUsesM request usage) (p.unrequestedUses request usage) := by
  rw [unrequestedUsesM, unrequestedUses_def, List.flatMap_def, List.flatMap_def]
  refine Follows.bind (.mapM fun type ht => unrequestedPartsM_follows wf declared (used type ht)) ?_
  exact Follows.map (.mapM fun method _ => unrequestedMethodM_follows wf declared method)

theorem problemsM_follows (used : ∀ type ∈ usage.interfaces, p.resolves (.type type)) :
    Follows p.Unsettled (p.problemsM request usage) (p.problems request usage) := by
  rw [problemsM, problems_def, leafGroupsM_ok wf declared, ok_bind]
  exact (unusedGroupsM_follows wf declared used).bind
    (unrequestedUsesM_follows wf declared used).map

/-- A verdict is reached if the questions about the groups and about each use are answered. -/
theorem problemsM_returns : Returns (p.problemsM request usage) ↔
    (∀ leaf ∈ p.leafGroups request.declared, Returns (p.isUsedM usage leaf)) ∧
      (∀ used ∈ usage.interfaces, Returns (p.unrequestedPartsM request used)) ∧
      ∀ method ∈ usage.methods, Returns (p.unrequestedMethodM request method) := by
  have groups : Returns (p.unusedGroupsM request usage) ↔
      ∀ leaf ∈ p.leafGroups request.declared, Returns (p.isUsedM usage leaf) := by
    rw [unusedGroupsM, leafGroupsM_ok wf declared, ok_bind, keep_returns]
    simp only [map_returns]
  have uses : Returns (p.unrequestedUsesM request usage) ↔
      (∀ used ∈ usage.interfaces, Returns (p.unrequestedPartsM request used)) ∧
        ∀ method ∈ usage.methods, Returns (p.unrequestedMethodM request method) := by
    rw [unrequestedUsesM, bind_returns, ← mapM_returns, ← mapM_returns]
    simp only [map_returns]
    exact exists_and_right
  rw [problemsM, leafGroupsM_ok wf declared, ok_bind, bind_returns, ← groups, ← uses]
  simp only [map_returns]
  exact exists_and_right

end Request

end WellFormed

end LeastContext.Program
