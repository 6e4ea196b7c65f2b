import LeastContext.Proofs.CapabilityGroups
import LeastContext.Proofs.FindingCauses
import LeastContext.Proofs.Lists
import LeastContext.Proofs.Satisfaction
import LeastContext.Proofs.Strict.Verdict

namespace LeastContext

/-- A record without the uses as a type. -/
def Usage.without (id : TypeId) (usage : Usage) : Usage :=
  { usage with interfaces := usage.interfaces.filter (· ≠ id) }

theorem Usage.Ascending.without {usage : Usage} (h : usage.Ascending) (id : TypeId) :
    (usage.without id).Ascending :=
  ⟨h.interfaces.filter _, h.methods⟩

open Strict

namespace Program

variable {p : Program} {id x : TypeId} {request : Request} {usage : Usage}

/-- Methods that are declared under one key below a type have identical signatures. -/
def Consistent (p : Program) (id : TypeId) : Prop :=
  ∀ a b method other, Relation.ReflTransGen p.Embeds id a → Relation.ReflTransGen p.Embeds id b →
    p.Declares a method → p.Declares b other → method.key = other.key →
      p.identical method.signature other.signature = true

/-- Only an interface has an interface below it. -/
theorem isInterface_above (h : Relation.ReflTransGen p.Embeds id x)
    (hx : p.isInterface x = true) : p.isInterface id = true := by
  rcases Relation.ReflTransGen.cases_head h with rfl | ⟨e, step, _⟩
  · exact hx
  · exact isInterface_of_embeds step

/-- A use with nothing to ask for can be left out. -/
theorem unrequestedUses_without
    (h : ((p.explicitComposition request.home id).filter fun part => !p.isRequested request part) =
      []) : p.unrequestedUses request (usage.without id) = p.unrequestedUses request usage := by
  have hinterfaces := flatMap_filter_ne
    (f := fun used => (p.explicitComposition request.home used).filter fun part =>
      !p.isRequested request part) h usage.interfaces
  rw [unrequestedUses_def, unrequestedUses_def, Usage.without, hinterfaces]

section WellFormed

variable (wf : p.WellFormed)
include wf

theorem consistent_iff : p.Consistent id ↔ ∀ method ∈ p.metMethods id, ∀ other ∈ p.metMethods id,
    method.key = other.key → p.identical method.signature other.signature = true := by
  simp only [mem_metMethods wf]
  constructor
  · intro h method hm other ho hkey
    obtain ⟨a, ha, hdecl⟩ := hm
    obtain ⟨b, hb, hdecl'⟩ := ho
    exact h a b method other ha hb hdecl hdecl' hkey
  · intro h a b method other ha hb hdecl hdecl' hkey
    exact h method ⟨a, ha, hdecl⟩ other ⟨b, hb, hdecl'⟩ hkey

/-- An interface satisfies those below it, as long as it does not say two things under one key. -/
theorem implements_below (consistent : p.Consistent id)
    (hreach : Relation.ReflTransGen p.Embeds id x) (hx : p.isInterface x = true) :
    p.implements id x = true := by
  refine implements_iff.mpr ⟨hx, ?_⟩
  intro wanted hwanted
  obtain ⟨e, hbelow, hdecl⟩ := mem_interfaceMethods hwanted
  have hkey : wanted.key ∈ (p.interfaceMethods id).map Method.key :=
    (key_mem_interfaceMethods wf).mpr ⟨e, wanted, hreach.trans hbelow, hdecl, rfl⟩
  obtain ⟨method, hm, hsame⟩ := List.mem_map.mp hkey
  obtain ⟨e', hreach', hdecl'⟩ := mem_interfaceMethods hm
  rw [← methodSet_of_isInterface (isInterface_above hreach hx)] at hm
  exact ⟨method, hm, hsame, consistent e' e _ _ hreach' (hreach.trans hbelow) hdecl' hdecl hsame⟩

theorem declared_covers_groups (consistent : p.Consistent request.declared)
    (used : request.declared ∈ usage.interfaces) : (p.problems request usage).unused = [] := by
  rw [List.eq_nil_iff_forall_not_mem]
  intro leaf hunused
  obtain ⟨hleaf, hno⟩ := mem_unused.mp hunused
  obtain ⟨body, hbody, _⟩ := declaresMethods_iff.mp ((mem_leafGroups wf).mp hleaf).2
  have hcovers : p.implements request.declared leaf = true :=
    implements_below wf consistent (leafGroup_below wf hleaf) (isInterface_iff.mpr ⟨body, hbody⟩)
  exact hno ⟨.interface request.declared, used, hcovers⟩

/-- The parts of the declared type are what the variable asks for by name. -/
theorem declared_asks_for_itself
    (hnamed : request.named = p.explicitComposition request.home request.declared) :
    ((p.explicitComposition request.home request.declared).filter fun part =>
      !p.isRequested request part) = [] := by
  rw [List.filter_eq_nil_iff]
  intro part hpart
  rw [← hnamed] at hpart
  simp [isRequested_of_named wf hpart]

end WellFormed

theorem allUnused_of_unused_nil (h : (p.problems request usage).unused = []) :
    (p.problems request usage).allUnused = false := by
  have hunused : p.unusedGroups request usage = [] := h
  cases hleaves : p.leafGroups request.declared <;> simp [problems_def, hunused, hleaves]

section Runs

variable (wf : p.WellFormed) (declared : p.resolves (.type request.declared))
  (consistent : p.Consistent request.declared)
include wf declared consistent

theorem implementsM_below (hreach : Relation.ReflTransGen p.Embeds request.declared x)
    (hx : p.isInterface x = true) : p.implementsM (m := Strict) request.declared x = .ok true :=
  implementsM_of_implements wf declared (reached_resolves wf hreach declared)
    (implements_below wf consistent hreach hx)

variable (hnamed : request.named = p.explicitComposition request.home request.declared)
include hnamed

theorem isRequestedM_part {part : TypeId}
    (hpart : part ∈ p.explicitComposition request.home request.declared) :
    p.isRequestedM (m := Strict) request part = .ok true := by
  obtain ⟨hbelow, hrequestable⟩ := (mem_explicitComposition wf).mp hpart
  have hresolves := composition_resolves wf declared hpart
  have hinterface := (isRequestable_iff.mp hrequestable).1
  have hcovered := implementsM_below wf declared consistent (Enters.embeds hbelow) hinterface
  have hasked : part ∈ request.named := hnamed ▸ hpart
  have hasserted : p.isAssertedM (m := Strict) request part = .ok false := by
    rw [isAssertedM, isInterfaceM_ok wf hresolves, hinterface, ok_bind, if_pos rfl, hcovered]
    rfl
  rw [isRequestedM, isRequestedWithinM, hasserted, ok_bind, if_neg Bool.false_ne_true,
    isInlineWithMethodsM_ok hresolves, ok_bind, if_pos hasked]
  split <;> rfl

/-- A verdict that is reached without the use as the declared type is reached with it: it asks for
no comparison without an end, and none after it is asked for then. -/
theorem returns_of_without (ascending : usage.Ascending)
    (h : Returns (p.problemsM request (usage.without request.declared))) :
    Returns (p.problemsM request usage) := by
  have asymm : ∀ a b : TypeId, a.index < b.index → ¬ b.index < a.index := fun _ _ => Nat.lt_asymm
  obtain ⟨groups, parts, methods⟩ := (problemsM_returns wf declared).mp h
  refine (problemsM_returns wf declared).mpr ⟨?_, ?_, methods⟩
  · intro leaf hleaf
    have hresolves := leaf_resolves wf declared hleaf
    have hcovered : p.implementsM (m := Strict) request.declared leaf = .ok true := by
      obtain ⟨body, hbody, _⟩ := declaresMethods_iff.mp ((mem_leafGroups wf).mp hleaf).2
      exact implementsM_below wf declared consistent (leafGroup_below wf hleaf)
        (isInterface_iff.mpr ⟨body, hbody⟩)
    refine (isUsedM_returns wf hresolves).mpr ?_
    refine ((isUsedM_returns wf hresolves).mp (groups leaf hleaf)).imp_right fun tested => ?_
    refine (anyM_returns asymm ascending.interfaces).mpr fun type ht => ?_
    by_cases hsame : type = request.declared
    · exact .inl ⟨true, hsame ▸ hcovered⟩
    · have hother := (anyM_returns asymm (ascending.without _).interfaces).mp tested type
        (List.mem_filter.mpr ⟨ht, by simpa using hsame⟩)
      refine hother.imp_right ?_
      rintro ⟨earlier, he, hit⟩
      exact ⟨earlier, List.mem_of_mem_filter he, hit⟩
  · intro type ht
    by_cases hsame : type = request.declared
    · subst hsame
      rw [unrequestedPartsM, explicitCompositionM_ok wf _ declared, ok_bind, keep_returns]
      intro part hpart
      rw [isRequestedM_part wf declared consistent hnamed hpart]
      exact ok_returns false
    · exact parts type (List.mem_filter.mpr ⟨ht, by simpa using hsame⟩)

end Runs

/-- A variable that is used as its declared type has no unused group, and that use adds nothing it
would not have asked for; a verdict is reached unless a comparison has no end, and if it is reached
without the use, it is with it. With no other use it is reached, and there is nothing to report. -/
theorem use_as_declared_is_no_problem (p : Program) (valid : p.defect? = none) {object : ObjectId}
    {request : Request} (hrequest : p.request? object = some request)
    (consistent : p.Consistent request.declared) {usage : Usage} (ascending : usage.Ascending)
    (types : ∀ type ∈ usage.interfaces, p.resolves (.type type))
    (used : request.declared ∈ usage.interfaces) :
    ∃ verdict, Follows p.Unsettled (p.problemsM request usage) verdict ∧
      verdict.unused = [] ∧ verdict.allUnused = false ∧
      (∃ without,
        Follows p.Unsettled (p.problemsM request (usage.without request.declared)) without ∧
          without.unrequested = verdict.unrequested) ∧
      (Returns (p.problemsM request (usage.without request.declared)) →
        Returns (p.problemsM request usage)) ∧
      ∀ cached, ∃ only,
        p.problemsM (m := Strict) request ⟨[request.declared], [], cached⟩ = .ok only ∧
          only.primary = none := by
  have wf := WellFormed.of_defect? valid
  have declared := request_resolves wf hrequest
  have hnamed := request?_eq_some hrequest
  have hasked := declared_asks_for_itself wf hnamed
  have hunused := declared_covers_groups wf consistent used
  refine ⟨_, problemsM_follows wf declared types, hunused, allUnused_of_unused_nil hunused, ?_, ?_,
    ?_⟩
  · refine ⟨_, problemsM_follows wf declared ?_, unrequestedUses_without hasked⟩
    exact fun type ht => types type (List.mem_of_mem_filter ht)
  · exact returns_of_without wf declared consistent hnamed ascending
  · intro cached
    have hreturns : Returns (p.problemsM request ⟨[request.declared], [], cached⟩) := by
      refine returns_of_without wf declared consistent hnamed ⟨by simp, .nil⟩ ?_
      rw [problemsM_returns wf declared]
      refine ⟨fun leaf hleaf => ?_, by simp [Usage.without], by simp [Usage.without]⟩
      rw [isUsedM_returns wf (leaf_resolves wf declared hleaf)]
      exact .inr (by simp [Usage.without])
    have htypes : ∀ type ∈ [request.declared], p.resolves (.type type) := by simpa using declared
    have hcovered : (p.problems request ⟨[request.declared], [], cached⟩).unused = [] :=
      declared_covers_groups wf consistent List.mem_cons_self
    have hnone : (p.problems request ⟨[request.declared], [], cached⟩).unrequested = [] := by
      simp [problems_def, unrequestedUses_def, hasked]
    refine ⟨_, (problemsM_follows wf declared htypes).ok_of_returns hreturns, ?_⟩
    simp [Problems.primary, hcovered, hnone, allUnused_of_unused_nil hcovered]

/-- A variable of type `interface { context.Context; Logger; Printer }`, where `Logger` and
`Printer` both declare `Log`, over two copies of a signature. -/
def twiceDeclared : Program where
  package := ⟨0⟩
  packages := #[⟨"app", "app"⟩, ⟨"context", "context"⟩]
  types := #[
    .signature ⟨[], [], false⟩,
    .signature ⟨[], [], false⟩,
    .interface ⟨[⟨"Done", none, ⟨0⟩⟩], []⟩,
    .named ⟨"Context", some ⟨1⟩, ⟨2⟩, []⟩,
    .interface ⟨[⟨"Log", none, ⟨0⟩⟩], []⟩,
    .named ⟨"Logger", some ⟨0⟩, ⟨4⟩, []⟩,
    .interface ⟨[⟨"Log", none, ⟨1⟩⟩], [⟨3⟩]⟩,
    .named ⟨"Printer", some ⟨0⟩, ⟨6⟩, []⟩,
    .interface ⟨[], [⟨3⟩, ⟨5⟩, ⟨7⟩]⟩]
  objects := #[⟨"ctx", .variable, some ⟨0⟩, some ⟨8⟩, none⟩]
  files := []

theorem twiceDeclared_valid : twiceDeclared.defect? = none := by
  decide

theorem twiceDeclared_consistent : twiceDeclared.Consistent ⟨8⟩ := by
  rw [consistent_iff (WellFormed.of_defect? twiceDeclared_valid)]
  decide

theorem twiceDeclared_request :
    twiceDeclared.request? ⟨0⟩ = some ⟨⟨8⟩, some ⟨0⟩, [⟨3⟩, ⟨5⟩, ⟨7⟩]⟩ := by
  decide

/-- All three groups are covered, the last one by a method that the type has from the second. -/
theorem twiceDeclared_used_as_declared :
    twiceDeclared.defect? = none ∧
      twiceDeclared.request? ⟨0⟩ = some ⟨⟨8⟩, some ⟨0⟩, [⟨3⟩, ⟨5⟩, ⟨7⟩]⟩ ∧
      twiceDeclared.Consistent ⟨8⟩ ∧ twiceDeclared.leafGroups ⟨8⟩ = [⟨3⟩, ⟨5⟩, ⟨7⟩] ∧
      (∃ verdict, twiceDeclared.problemsM (m := Strict) ⟨⟨8⟩, some ⟨0⟩, [⟨3⟩, ⟨5⟩, ⟨7⟩]⟩
          ⟨[⟨8⟩], ["Done"], false⟩ = .ok verdict ∧ verdict.unused = []) ∧
      ∃ only, twiceDeclared.problemsM (m := Strict) ⟨⟨8⟩, some ⟨0⟩, [⟨3⟩, ⟨5⟩, ⟨7⟩]⟩
          ⟨[⟨8⟩], [], false⟩ = .ok only ∧ only.primary = none := by
  have ascending : (⟨[⟨8⟩], ["Done"], false⟩ : Usage).Ascending := ⟨by simp, by simp⟩
  obtain ⟨verdict, follows, hunused, _, _, _, honly⟩ := use_as_declared_is_no_problem twiceDeclared
    twiceDeclared_valid twiceDeclared_request twiceDeclared_consistent ascending (by decide)
    List.mem_cons_self
  exact ⟨twiceDeclared_valid, twiceDeclared_request, twiceDeclared_consistent, by decide,
    ⟨verdict, follows.ok_of_returns (by decide +kernel), hunused⟩, honly false⟩

/-- A variable of type `interface { Left }`, beside the type `interface { Right }`. -/
def leftVariable : Program :=
  { mutualLiterals with objects := #[⟨"ctx", .variable, some ⟨0⟩, some ⟨2⟩, none⟩] }

theorem leftVariable_valid : leftVariable.defect? = none := by
  decide

theorem leftVariable_request : leftVariable.request? ⟨0⟩ = some ⟨⟨2⟩, some ⟨0⟩, [⟨4⟩]⟩ := by
  decide

theorem leftVariable_recurs : leftVariable.Recurs (⟨8⟩, ⟨9⟩) := by
  have signatures : leftVariable.Asks (⟨8⟩, ⟨9⟩) (⟨2⟩, ⟨3⟩) :=
    ⟨[], [some (⟨0⟩, ⟨1⟩)], by decide, by simp⟩
  have literals : leftVariable.Asks (⟨2⟩, ⟨3⟩) (⟨8⟩, ⟨9⟩) :=
    ⟨[], [], by decide, by simp⟩
  exact .tail (.single signatures) literals

/-- A variable used as its own type and as another one, about which no verdict is ever reached. -/
theorem leftVariable_used_as_declared :
    leftVariable.defect? = none ∧
      leftVariable.request? ⟨0⟩ = some ⟨⟨2⟩, some ⟨0⟩, [⟨4⟩]⟩ ∧ leftVariable.Consistent ⟨2⟩ ∧
      leftVariable.problemsM (m := Strict) ⟨⟨2⟩, some ⟨0⟩, [⟨4⟩]⟩ ⟨[⟨2⟩, ⟨3⟩], [], false⟩ =
        .error (.unsettled ⟨8⟩ ⟨9⟩) ∧
      ∀ depth, leftVariable.identicalWithin depth ⟨8⟩ ⟨9⟩ = none := by
  refine ⟨leftVariable_valid, leftVariable_request, ?_, by decide +kernel,
    leftVariable_recurs.unanswered⟩
  rw [consistent_iff (WellFormed.of_defect? leftVariable_valid)]
  decide

end Program

end LeastContext
