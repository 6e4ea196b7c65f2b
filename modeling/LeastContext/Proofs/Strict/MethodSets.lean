import LeastContext.Proofs.EmbedWalks
import LeastContext.Proofs.MethodSets
import LeastContext.Proofs.Strict.Lookups

namespace LeastContext.Program

open Strict

variable (p : Program)

/-- The types that promotion has not passed yet. -/
def unseen (seen : List TypeId) : List TypeId :=
  p.typeIds.filter (· ∉ seen)

variable {p} {id : TypeId}

theorem unseen_cons_lt {seen : List TypeId} (h : p.resolves (.type id)) (fresh : id ∉ seen) :
    (p.unseen (id :: seen)).length < (p.unseen seen).length := by
  have fewer : p.unseen (id :: seen) = (p.unseen seen).filter (· ≠ id) := by
    rw [unseen, unseen, List.filter_filter]
    apply List.filter_congr
    intro x _
    simp [not_or]
  have here : id ∈ p.unseen seen := by
    have hin : id.index < p.types.size := by simpa [resolves] using h
    simp [unseen, mem_typeIds, hin, fresh]
  rw [fewer, List.length_filter_lt_length_iff_exists]
  exact ⟨id, here, by simp⟩

/-- A level that is not seen in full adds to what has been seen. -/
theorem scan_progress {level : List Reached} (inside : ∀ r ∈ level, p.resolves (.type r.type))
    (state : LevelScan) : level.foldl p.scan state = state ∨
      (p.unseen (level.foldl p.scan state).seen).length < (p.unseen state.seen).length := by
  induction level generalizing state with
  | nil => exact .inl rfl
  | cons reached level ih =>
    have hrest := ih (fun r hr => inside r (List.mem_cons_of_mem _ hr)) (p.scan state reached)
    rw [List.foldl_cons]
    by_cases hseen : reached.type ∈ state.seen
    · have same : p.scan state reached = state := by rw [scan_def, if_pos hseen]
      rwa [same] at hrest ⊢
    · have hone := unseen_cons_lt (inside reached List.mem_cons_self) hseen
      have hscan : (p.scan state reached).seen = reached.type :: state.seen := by
        rw [scan_def, if_neg hseen]
      rw [← hscan] at hone
      rcases hrest with he | hlt
      · rw [he]
        exact .inr hone
      · exact .inr (Nat.lt_trans hlt hone)

theorem mem_candidates {candidates : List Candidate} {candidate : Candidate} {method : Method}
    (h : candidate ∈ Candidate.add candidates method) :
    candidate.method = method ∨ ∃ old ∈ candidates, old.method = candidate.method := by
  induction candidates with
  | nil =>
    rw [Candidate.add, List.mem_singleton] at h
    exact .inl (congrArg Candidate.method h)
  | cons first more ih =>
    rw [Candidate.add] at h
    split at h
    · rcases List.mem_cons.mp h with rfl | h
      · exact .inr ⟨first, List.mem_cons_self, rfl⟩
      · exact .inr ⟨candidate, List.mem_cons_of_mem _ h, rfl⟩
    · rcases List.mem_cons.mp h with rfl | h
      · exact .inr ⟨candidate, List.mem_cons_self, rfl⟩
      · rcases ih h with he | ⟨old, hold, he⟩
        · exact .inl he
        · exact .inr ⟨old, List.mem_cons_of_mem _ hold, he⟩

section WellFormed

variable (wf : p.WellFormed)
include wf

theorem flattenWithinM_ok {depth : Nat} {state : Flattening} (h : p.resolves (.type id))
    (ends : Digraph.Shallow p.embeds depth id) :
    p.flattenWithinM (m := Strict) depth state id = .ok (p.flattenWithin depth state id) := by
  induction depth generalizing state id with
  | zero => exact ends.elim
  | succ depth ih =>
    rw [flattenWithinM, flattenWithin_succ]
    split
    · rfl
    · rw [interfaceM_ok wf h, ok_bind]
      cases hbody : p.interface? id with
      | none => rfl
      | some body =>
        apply foldlM_ok
        intro e he state
        have he : e ∈ p.embeds id := mem_embeds.mpr (.of_body hbody he)
        exact ih (embed_resolves wf he) (ends.next he)

theorem interfaceMethodsM_ok (h : p.resolves (.type id)) :
    p.interfaceMethodsM (m := Strict) id = .ok (p.interfaceMethods id) := by
  rw [interfaceMethodsM, flattenWithinM_ok wf h (embeds_shallow wf id)]
  rfl

theorem declaredMethodsM_ok (h : p.resolves (.type id)) (pointerReceivers : Bool) :
    p.declaredMethodsM (m := Strict) id pointerReceivers =
      .ok (p.declaredMethods id pointerReceivers) := by
  rw [declaredMethodsM, declaredMethods_def, formM_ok h, ok_bind]
  cases hform : p.form id with
  | named decl =>
    have found : ∀ method ∈ decl.methods.filter fun method =>
        pointerReceivers || !method.pointerReceiver,
        p.declaredMethodM (m := Strict) method =
          .ok ((p.object method.func).type.map fun signature =>
            ⟨(p.object method.func).methodKey, signature⟩) := by
      intro method hm
      have hfunc := form_resolves wf hform (.declaredMethod (List.mem_filter.mp hm).1)
      rw [declaredMethodM, objectM_ok hfunc]
      rfl
    simp only [mapM_ok found, ok_bind, pure_eq, List.filterMap_map]
    rfl
  | _ => rfl

theorem ownMethodsM_ok {reached : Reached} (h : p.resolves (.type reached.type)) :
    p.ownMethodsM (m := Strict) reached = .ok (p.ownMethods reached) := by
  rw [ownMethodsM, ownMethods_def, isInterfaceM_ok wf h, ok_bind]
  split
  · exact interfaceMethodsM_ok wf h
  · exact declaredMethodsM_ok wf h reached.addressable

theorem embeddedFieldsM_ok {reached : Reached} (h : p.resolves (.type reached.type)) :
    p.embeddedFieldsM (m := Strict) reached = .ok (p.embeddedFields reached) := by
  rw [embeddedFieldsM, embeddedFields_def, underlyingM_ok wf h, ok_bind,
    formM_ok (underlying_resolves wf h), ok_bind]
  cases hform : p.form (p.underlying reached.type) with
  | struct fields =>
    apply mapM_ok
    intro field hf
    have hfield := part_resolves wf hform (.field (List.mem_filter.mp hf).1)
    rw [embeddedFieldM, formM_ok hfield, ok_bind]
    cases p.form field.type <;> rfl
  | _ => rfl

theorem embeddedField_resolves {reached next : Reached} (h : next ∈ p.embeddedFields reached) :
    p.resolves (.type next.type) := by
  rw [embeddedFields_def] at h
  split at h
  · rename_i fields hform
    obtain ⟨field, hf, rfl⟩ := List.mem_map.mp h
    split
    · rename_i elem hpointer
      exact part_resolves wf hpointer .pointerElem
    · exact part_resolves wf hform (.field (List.mem_filter.mp hf).1)
  · cases h

theorem scanM_ok {level : LevelScan} {reached : Reached} (h : p.resolves (.type reached.type)) :
    p.scanM (m := Strict) level reached = .ok (p.scan level reached) := by
  rw [scanM, scan_def]
  split
  · rfl
  · rw [ownMethodsM_ok wf h, ok_bind, embeddedFieldsM_ok wf h]
    rfl

theorem scan_resolves {level : List Reached} {state : LevelScan}
    (h : ∀ r ∈ state.next, p.resolves (.type r.type)) :
    ∀ r ∈ (level.foldl p.scan state).next, p.resolves (.type r.type) := by
  refine List.foldlRecOn (motive := fun state : LevelScan =>
    ∀ r ∈ state.next, p.resolves (.type r.type)) level _ h ?_
  intro state hstate reached _
  rw [scan_def]
  split
  · exact hstate
  · intro r hr
    rcases List.mem_append.mp hr with hr | hr
    · exact hstate r hr
    · exact embeddedField_resolves wf hr

/-- Promotion ends for want of types that it has not seen. -/
theorem promoteWithinM_ok {depth : Nat} {seen : List TypeId} {hidden : List MethodKey}
    {level : List Reached} (inside : ∀ r ∈ level, p.resolves (.type r.type))
    (room : (p.unseen seen).length < depth) :
    p.promoteWithinM (m := Strict) depth seen hidden level =
      .ok (p.promoteWithin depth seen hidden level) := by
  induction depth generalizing seen hidden level with
  | zero => omega
  | succ depth ih =>
    cases level with
    | nil => rfl
    | cons first more =>
      obtain ⟨result, hresult⟩ : ∃ result, (first :: more).foldl p.scan ⟨seen, [], []⟩ = result :=
        ⟨_, rfl⟩
      have scanned :
          (first :: more).foldlM (p.scanM (m := Strict)) ⟨seen, [], []⟩ = .ok result := by
        rw [← hresult]
        exact foldlM_ok (fun r hr _ => scanM_ok wf (inside r hr)) _
      have hnext : ∀ r ∈ result.next, p.resolves (.type r.type) := by
        rw [← hresult]
        exact scan_resolves wf (by simp)
      have deeper : ∀ hidden, p.promoteWithinM (m := Strict) depth result.seen hidden result.next =
          .ok (p.promoteWithin depth result.seen hidden result.next) := by
        intro hidden
        rcases scan_progress inside ⟨seen, [], []⟩ with he | hlt
        · rw [← hresult, he]
          cases depth <;> rfl
        · rw [hresult] at hlt
          exact ih hnext (Nat.lt_of_lt_of_le hlt (Nat.le_of_lt_succ room))
      rw [promoteWithinM, promoteWithin_succ, scanned, hresult]
      simp only [ok_bind, deeper]
      rfl

theorem promotedMethodsM_ok (h : p.resolves (.type id)) (addressable : Bool) :
    p.promotedMethodsM (m := Strict) id addressable = .ok (p.promotedMethods id addressable) := by
  apply promoteWithinM_ok wf
  · simpa using h
  · have hall : p.unseen [] = p.typeIds := by simp [unseen]
    simp [hall, typeIds]

theorem methodSetM_ok (h : p.resolves (.type id)) :
    p.methodSetM (m := Strict) id = .ok (p.methodSet id) := by
  rw [methodSetM, methodSet_def, isInterfaceM_ok wf h, ok_bind]
  split
  · exact interfaceMethodsM_ok wf h
  · rw [formM_ok h, ok_bind]
    cases hform : p.form id with
    | pointer elem =>
      exact promotedMethodsM_ok wf (part_resolves wf hform .pointerElem) true
    | named _ | struct _ => exact promotedMethodsM_ok wf h false
    | _ => rfl

theorem interfaceMethod_resolves {method : Method} (h : method ∈ p.interfaceMethods id) :
    p.resolves (.type method.signature) := by
  simpa [resolves] using interfaceMethods_inside wf h

/-- Every method that a type brings has a signature in the program. -/
theorem ownMethod_resolves {reached : Reached} {method : Method}
    (h : method ∈ p.ownMethods reached) : p.resolves (.type method.signature) := by
  rw [ownMethods_def] at h
  split at h
  · exact interfaceMethod_resolves wf h
  · rw [declaredMethods_def] at h
    split at h
    · obtain ⟨declared, _, hm⟩ := List.mem_filterMap.mp h
      obtain ⟨signature, hs, rfl⟩ := Option.map_eq_some_iff.mp hm
      exact object_resolves wf (.type hs)
    · cases h

theorem found_resolves (level : List Reached) (seen : List TypeId) :
    ∀ candidate ∈ (level.foldl p.scan ⟨seen, [], []⟩).found,
      p.resolves (.type candidate.method.signature) := by
  refine List.foldlRecOn (motive := fun state : LevelScan =>
    ∀ candidate ∈ state.found, p.resolves (.type candidate.method.signature)) level _ ?_ ?_
  · simp
  · intro state hstate reached _
    rw [scan_def]
    split
    · exact hstate
    · refine List.foldlRecOn (motive := fun found : List Candidate =>
        ∀ candidate ∈ found, p.resolves (.type candidate.method.signature))
        (p.ownMethods reached) _ hstate ?_
      intro found hfound method hm candidate hc
      rcases mem_candidates hc with he | ⟨old, hold, he⟩
      · rw [he]
        exact ownMethod_resolves wf hm
      · rw [← he]
        exact hfound old hold

theorem promoted_resolves {depth : Nat} {seen : List TypeId} {hidden : List MethodKey}
    {level : List Reached} {method : Method}
    (h : method ∈ p.promoteWithin depth seen hidden level) :
    p.resolves (.type method.signature) := by
  induction depth generalizing seen hidden level with
  | zero =>
    rw [promoteWithin_zero] at h
    cases h
  | succ depth ih =>
    rw [promoteWithin_succ] at h
    rcases List.mem_append.mp h with h | h
    · obtain ⟨candidate, hc, rfl⟩ := List.mem_map.mp h
      exact found_resolves wf level seen candidate
        (List.mem_filter.mp (List.mem_filter.mp hc).1).1
    · exact ih h

theorem method_resolves {method : Method} (h : method ∈ p.methodSet id) :
    p.resolves (.type method.signature) := by
  rw [methodSet_def] at h
  split at h
  · exact interfaceMethod_resolves wf h
  · split at h
    · exact promoted_resolves wf h
    · exact promoted_resolves wf h
    · exact promoted_resolves wf h
    · cases h

end WellFormed

end LeastContext.Program
