import LeastContext.Proofs.Strict.Analysis

namespace LeastContext.Program

open Strict

/-- Every phase and query of the analysis returns its answer, for all arguments that exist in the
program, unless it asks for a comparison that has no end. No look-up misses its table, and no
recursion besides that of comparison goes on for ever. -/
structure Total (p : Program) : Prop where
  isContext : ∀ path name id, p.resolves (.type id) →
    p.isContextM (m := Strict) path name id = .ok (p.isContext path name id)
  explicitComposition : ∀ home id, p.resolves (.type id) →
    p.explicitCompositionM (m := Strict) home id = .ok (p.explicitComposition home id)
  leafGroups : ∀ id, p.resolves (.type id) →
    p.leafGroupsM (m := Strict) id = .ok (p.leafGroups id)
  explicitlyContaining : ∀ method id, p.resolves (.type id) →
    p.explicitlyContainingM (m := Strict) method id = .ok (p.explicitlyContaining method id)
  expand : ∀ home id, p.resolves (.type id) →
    p.expandM (m := Strict) home id = .ok (p.expand home id)
  unwrapPointers : ∀ id, p.resolves (.type id) →
    p.unwrapPointersM (m := Strict) id = .ok (p.unwrapPointers id)
  render : ∀ q id, p.resolves (.type id) → p.renderM (m := Strict) q id = .ok (p.render q id)
  renderSignature : ∀ q id sig, p.form id = .signature sig →
    sig.renderM (m := Strict) (p.renderM q) p.sliceElemM =
      .ok (sig.render (p.render q) p.sliceElem?)
  promotedMethods : ∀ id addressable, p.resolves (.type id) →
    p.promotedMethodsM (m := Strict) id addressable = .ok (p.promotedMethods id addressable)
  methodSet : ∀ id, p.resolves (.type id) → p.methodSetM (m := Strict) id = .ok (p.methodSet id)
  /-- A comparison looks up nothing that is missing at any depth. -/
  identicalWithin : ∀ depth a b, p.resolves (.type a) → p.resolves (.type b) →
    (p.identicalWithinM (m := Strict) depth a b).run = .ok (p.identicalWithin depth a b)
  identical : ∀ a b, p.resolves (.type a) → p.resolves (.type b) →
    Follows p.Unsettled (p.identicalM a b) (p.identical a b)
  implements : ∀ id interface, p.resolves (.type id) → p.resolves (.type interface) →
    Follows p.Unsettled (p.implementsM id interface) (p.implements id interface)
  pointerImplements : ∀ named interface, p.resolves (.type named) →
    p.resolves (.type interface) →
      Follows p.Unsettled (p.pointerImplementsM named interface)
        (p.pointerImplements named interface)
  isRequested : ∀ request id, p.resolves (.type request.declared) → p.resolves (.type id) →
    Follows p.Unsettled (p.isRequestedM request id) (p.isRequested request id)
  problems : ∀ request usage, p.resolves (.type request.declared) →
    (∀ type ∈ usage.interfaces, p.resolves (.type type)) →
      Follows p.Unsettled (p.problemsM request usage) (p.problems request usage)
  collect : ∀ settings, p.collectM (m := Strict) settings = .ok (p.collect settings)
  pool : ∀ ledger, Follows p.Unsettled (p.poolM ledger) (p.pool ledger)
  markUses : ∀ settings ledger,
    p.markUsesM (m := Strict) settings ledger = .ok (p.markUses settings ledger)
  marked : ∀ settings, (p.markUses settings (p.pool (p.collect settings)).1).2 = none →
    (p.markUses settings (p.pool (p.collect settings)).1).1.ledger.Resolves p
  report : ∀ settings includeTests ledger, ledger.Resolves p →
    Follows p.Unsettled (p.reportM settings includeTests ledger)
      (p.report settings includeTests ledger)
  analyze : ∀ settings includeTests,
    Follows p.Unsettled (p.analyzeM settings includeTests) (p.analyze settings includeTests)

theorem valid_program_is_total (p : Program) (valid : p.defect? = none) : p.Total := by
  have wf := WellFormed.of_defect? valid
  constructor
  case isContext => exact fun path name id h => isContextM_ok wf path name h
  case explicitComposition => exact fun home id h => explicitCompositionM_ok wf home h
  case leafGroups => exact fun id h => leafGroupsM_ok wf h
  case explicitlyContaining => exact fun method id h => explicitlyContainingM_ok wf method h
  case expand => exact fun home id h => expandM_ok wf home h
  case unwrapPointers => exact fun id h => unwrapPointersM_ok wf h
  case render => exact fun q id h => renderM_ok wf h
  case renderSignature =>
    intro q id sig hform
    exact renderSignatureM_ok wf (fun _ h _ => renderM_ok wf h) hform
      fun part _ => parts_shallow wf part
  case promotedMethods => exact fun id addressable h => promotedMethodsM_ok wf h addressable
  case methodSet => exact fun id h => methodSetM_ok wf h
  case identicalWithin => exact fun depth a b ha hb => identicalWithinM_run wf ha hb
  case identical => exact fun a b ha hb => identicalM_follows wf ha hb
  case implements => exact fun id interface hid h => implementsM_follows wf hid h
  case pointerImplements => exact fun named interface hn h => pointerImplementsM_follows wf hn h
  case isRequested => exact fun request id declared h => isRequestedM_follows wf declared h
  case problems => exact fun request usage declared used => problemsM_follows wf declared used
  case collect => exact collectM_ok wf
  case pool => exact poolM_follows wf
  case markUses => exact markUsesM_ok wf
  case marked => exact marked_resolves wf
  case report =>
    exact fun settings includeTests ledger h => reportM_follows wf settings includeTests h
  case analyze => exact p.analyzeM_follows

/-- An interface that embeds itself, and a name that stands for no type of the program. -/
def defective : Program where
  package := ⟨0⟩
  packages := #[⟨"app", "app"⟩]
  types := #[
    .named ⟨"I", some ⟨0⟩, ⟨1⟩, []⟩,
    .interface ⟨[], [⟨0⟩]⟩,
    .named ⟨"J", some ⟨0⟩, ⟨3⟩, []⟩]
  objects := #[]
  files := []

-- Of a defective program both kinds of faults can be had.
example : defective.leafGroupsM (m := Strict) ⟨0⟩ = .error .endless := by
  decide +kernel

example : defective.leafGroupsM (m := Strict) ⟨2⟩ = .error (.missing (.type ⟨3⟩)) := by
  decide +kernel

/-- The types `T struct { *U }` and `U struct { *T; Base }`, where `Base` has a method `M`. -/
def mutualEmbedding : Program where
  package := ⟨0⟩
  packages := #[⟨"app", "app"⟩]
  types := #[
    .named ⟨"T", some ⟨0⟩, ⟨1⟩, []⟩,
    .struct [⟨"U", ⟨2⟩, true⟩],
    .pointer ⟨3⟩,
    .named ⟨"U", some ⟨0⟩, ⟨4⟩, []⟩,
    .struct [⟨"T", ⟨5⟩, true⟩, ⟨"Base", ⟨6⟩, true⟩],
    .pointer ⟨0⟩,
    .named ⟨"Base", some ⟨0⟩, ⟨7⟩, [⟨⟨0⟩, true⟩]⟩,
    .struct [],
    .signature ⟨[], [], false⟩]
  objects := #[⟨"M", .method ⟨6⟩, some ⟨0⟩, some ⟨8⟩, none⟩]
  files := []

/-- Promotion through the circle ends with the method that lies on it. -/
theorem mutualEmbedding_total :
    mutualEmbedding.defect? = none ∧ mutualEmbedding.Total ∧
      mutualEmbedding.promotedMethodsM (m := Strict) ⟨0⟩ false = .ok [⟨⟨"M", none⟩, ⟨8⟩⟩] := by
  have valid : mutualEmbedding.defect? = none := by decide +kernel
  have total := valid_program_is_total mutualEmbedding valid
  refine ⟨valid, total, (total.promotedMethods ⟨0⟩ false (by decide)).trans ?_⟩
  decide +kernel

end LeastContext.Program
