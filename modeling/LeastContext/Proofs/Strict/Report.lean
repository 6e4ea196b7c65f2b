import LeastContext.Proofs.Strict.Rendering
import LeastContext.Proofs.Strict.Verdict

namespace LeastContext

/-- The handles in a ledger that a report asks about point into the tables. -/
structure Ledger.Resolves (ledger : Ledger) (p : Program) : Prop where
  objects : ∀ v ∈ ledger.active, p.resolves (.object (ledger.variableAt v).object)
  uses : ∀ v ∈ ledger.active, ∀ type ∈ (ledger.usage v).interfaces, p.resolves (.type type)

/-- The type that a nameable is or has methods of. -/
def Nameable.id : Nameable → TypeId
  | .type id | .methods id => id

namespace Program

open Evaluation Strict

variable {p : Program} {home : Option PackageId} {id : TypeId} {ledger : Ledger}

/-- What stands for an interface in a message lies below it. -/
theorem expandWithin_reached {depth : Nat} {nameable : Nameable}
    (h : nameable ∈ p.expandWithin home depth id) :
    Relation.ReflTransGen p.Embeds id nameable.id := by
  induction depth generalizing id with
  | zero => cases h
  | succ depth ih =>
    rw [expandWithin_succ] at h
    split at h
    · rw [List.mem_singleton.mp h]
      exact .refl
    · rename_i body hbody
      split at h
      · rw [List.mem_singleton.mp h]
        exact .refl
      · rcases List.mem_append.mp h with h | h
        · obtain ⟨e, he, hbelow⟩ := List.mem_flatMap.mp h
          exact .head (.of_body hbody he) (ih hbelow)
        · split at h
          · cases h
          · rw [List.mem_singleton.mp h]
            exact .refl

theorem reportM_eq (settings : Settings) (includeTests : Bool) (resolved : ledger.Resolves p) :
    p.reportM (m := Strict) settings includeTests ledger = (do
      let found ← (ledger.active.filter (p.isInScope settings includeTests ledger)).mapM
        (p.diagnoseM ledger)
      return (found.filterMap (·)).mergeSort Diagnostic.notAfter) := by
  have reported : keep (p.isInScopeM (m := Strict) settings includeTests ledger) ledger.active =
      .ok (ledger.active.filter (p.isInScope settings includeTests ledger)) := by
    apply keep_ok
    intro v hv
    rw [isInScopeM, objectM_ok (resolved.objects v hv)]
    rfl
  rw [reportM, reported]
  rfl

section WellFormed

variable (wf : p.WellFormed)
include wf

theorem shortNameM_ok {nameable : Nameable} (h : p.resolves (.type nameable.id)) :
    p.shortNameM (m := Strict) home nameable = .ok (p.shortName home nameable) := by
  cases nameable with
  | type id => exact renderM_ok wf h
  | methods id =>
    have h : p.resolves (.type id) := h
    rw [shortNameM, shortName_methods, interfaceM_ok wf h, ok_bind]
    cases hbody : p.interface? id with
    | none => exact renderM_ok wf h
    | some body =>
      obtain ⟨c, _, hform⟩ := interface?_eq_some.mp hbody
      apply renderInterfaceM_ok wf
      intro type ht
      refine part_resolves wf hform (TypeForm.mem_parts.mp ?_)
      simp only [TypeForm.parts, List.append_nil] at ht
      exact List.mem_append_left _ ht

theorem nameListM_ok {ids : List TypeId} (h : ∀ id ∈ ids, p.resolves (.type id)) :
    p.nameListM (m := Strict) home ids = .ok (p.nameList home ids) := by
  have nameables : ids.mapM (p.expandM (m := Strict) home) = .ok (ids.map (p.expand home)) :=
    mapM_ok fun id hid => expandM_ok wf home (h id hid)
  have names : (ids.flatMap (p.expand home)).mapM (p.shortNameM (m := Strict) home) =
      .ok ((ids.flatMap (p.expand home)).map (p.shortName home)) := by
    apply mapM_ok
    intro nameable hn
    obtain ⟨id, hid, hbelow⟩ := List.mem_flatMap.mp hn
    exact shortNameM_ok wf (reached_resolves wf (expandWithin_reached hbelow) (h id hid))
  rw [nameListM, nameList_def, nameables, ok_bind, ← List.flatMap_def]
  simp only [names]
  rfl

/-- The interfaces at fault lie below the declared type or a type that was used. -/
theorem blamed_resolves {request : Request} {usage : Usage} {kind : ProblemKind}
    {types : List TypeId} (declared : p.resolves (.type request.declared))
    (used : ∀ type ∈ usage.interfaces, p.resolves (.type type))
    (h : (p.problems request usage).primary = some (kind, types)) :
    ∀ type ∈ types, p.resolves (.type type) := by
  have unused : ∀ type ∈ p.unusedGroups request usage, p.resolves (.type type) := by
    intro type ht
    rw [unusedGroups_def] at ht
    exact leaf_resolves wf declared (List.mem_filter.mp ht).1
  have unrequested : ∀ type ∈ p.unrequestedUses request usage, p.resolves (.type type) := by
    intro type ht
    rcases mem_unrequestedUses.mp ht with ⟨origin, ho, hpart, _⟩ | ⟨method, _, _, hcontains⟩
    · exact composition_resolves wf (used origin ho) hpart
    · exact containing_resolves wf declared hcontains
  unfold Problems.primary at h
  split at h
  · cases h
    simp
  · split at h
    · cases h
      exact unrequested
    · split at h
      · cases h
      · split at h
        · cases h
          exact unused
        · cases h

/-- Of a finding only the verdict can fail to return. -/
theorem diagnoseM_eq (resolved : ledger.Resolves p) {v : VarId} (hv : v ∈ ledger.active) :
    p.diagnoseM (m := Strict) ledger v =
      match p.request? (ledger.variableAt v).object with
      | none => .ok none
      | some request => do
        let problems ← p.problemsM request (ledger.usage v)
        return problems.primary.map fun problem =>
          p.finding (p.object (ledger.variableAt v).object) problem.1
            (p.nameList (some p.package) problem.2) := by
  have hobject := resolved.objects v hv
  rw [diagnoseM]
  simp only [requestM_ok wf hobject, ok_bind]
  cases hrequest : p.request? (ledger.variableAt v).object with
  | none => rfl
  | some request =>
    have declared := request_resolves wf hrequest
    rcases problemsM_follows wf declared (resolved.uses v hv) with hrun | ⟨fault, _, hrun⟩
    · simp only [hrun, ok_bind]
      cases hprimary : (p.problems request (ledger.usage v)).primary with
      | none => rfl
      | some problem =>
        have blamed := blamed_resolves wf declared (resolved.uses v hv) hprimary
        simp only [nameListM_ok wf blamed, objectM_ok hobject]
        rfl
    · simp only [hrun, error_bind]

theorem diagnoseM_follows (resolved : ledger.Resolves p) {v : VarId} (hv : v ∈ ledger.active) :
    Follows p.Unsettled (p.diagnoseM ledger v) (p.diagnose? ledger v) := by
  rw [diagnoseM_eq wf resolved hv, diagnose?_def]
  cases hrequest : p.request? (ledger.variableAt v).object with
  | none => exact .inl rfl
  | some request =>
    exact (problemsM_follows wf (request_resolves wf hrequest) (resolved.uses v hv)).map

theorem reportM_follows (settings : Settings) (includeTests : Bool)
    (resolved : ledger.Resolves p) :
    Follows p.Unsettled (p.reportM settings includeTests ledger)
      (p.report settings includeTests ledger) := by
  rw [reportM_eq settings includeTests resolved, report_def]
  have found : Follows p.Unsettled
      ((ledger.active.filter (p.isInScope settings includeTests ledger)).mapM (p.diagnoseM ledger))
      ((ledger.active.filter (p.isInScope settings includeTests ledger)).map
        (p.diagnose? ledger)) :=
    .mapM fun v hv => diagnoseM_follows wf resolved (List.mem_filter.mp hv).1
  have sorted := found.map (f := fun found =>
    (found.filterMap (·)).mergeSort Diagnostic.notAfter)
  rwa [List.filterMap_map] at sorted

/-- A report returns if the verdicts on all variables in scope do. -/
theorem reportM_returns (settings : Settings) (includeTests : Bool)
    (resolved : ledger.Resolves p) :
    Returns (p.reportM settings includeTests ledger) ↔
      ∀ v ∈ ledger.active, p.isInScope settings includeTests ledger v = true →
        ∀ request, p.request? (ledger.variableAt v).object = some request →
          Returns (p.problemsM request (ledger.usage v)) := by
  have found : Returns (p.reportM settings includeTests ledger) ↔
      ∀ v ∈ ledger.active.filter (p.isInScope settings includeTests ledger),
        Returns (p.diagnoseM ledger v) := by
    rw [reportM_eq settings includeTests resolved, ← mapM_returns]
    exact map_returns
  have one : ∀ v ∈ ledger.active, Returns (p.diagnoseM ledger v) ↔
      ∀ request, p.request? (ledger.variableAt v).object = some request →
        Returns (p.problemsM request (ledger.usage v)) := by
    intro v hv
    rw [diagnoseM_eq wf resolved hv]
    cases p.request? (ledger.variableAt v).object with
    | none => simp
    | some request =>
      simp only [Option.some.injEq, forall_eq']
      exact map_returns
  rw [found]
  simp only [List.mem_filter, and_imp]
  exact forall₂_congr fun v hv => forall_congr' fun _ => one v hv

end WellFormed

end Program

end LeastContext
